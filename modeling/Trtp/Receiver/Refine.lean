import Mathlib.Order.Interval.Finset.Nat
import Trtp.Lib.Reassembly
import Trtp.Receiver.Loop

/-!
# The receiver refines a set of packets

Packet `j` of a file carries number `j % 256` and the bytes `file j`. Against the window machine of
`Lib.Reassembly`: the receiver's state is a function of the set `S` of the packets it accepted.

* `Represents file S r`: it expects `next S`, wrote the packets below, holds exactly the packets
  of `S` above in its stack, and its window is 31 minus their number.
* `drain_represents`: **the drain loop stops at the least missing packet**.
* `accept_represents`: **one arrival is one `absorb`**, as long as it is at most 225 packets late
  and 255 early, so that its number tells it from the others the window test could take it for.
* `receive_refines`: over any run of such arrivals.

Premise of the run: what arrives is the segment of a DATA packet with a payload.
-/

namespace Trtp

open Trtp.Reassembly

/-- Packet `j` of a file, as the decoder returns it. -/
structure IsPacket (file : ℕ → List UInt8) (j : ℕ) (packet : Pkt) : Prop where
  seqnum_eq : packet.seqnum = UInt8.ofNat j
  type_eq : packet.type = .data
  tr_eq : packet.tr = 0
  length_eq : packet.length.toNat = (file j).length
  payload_eq : packet.payload = some (file j)

/-- A packet of the file on the sender's side. -/
structure IsData (file : ℕ → List UInt8) (j : ℕ) (pkt : Pkt) : Prop where
  sendable : Sendable pkt
  type_eq : pkt.type = .data
  seqnum_eq : pkt.seqnum = UInt8.ofNat j
  bytes_eq : pkt.bytes = file j

variable {file : ℕ → List UInt8} {j k : ℕ} {packet : Pkt}

theorem IsData.length_eq_zero {pkt : Pkt} (h : IsData file j pkt) :
    pkt.length = 0 ↔ file j = [] := by
  have hlen := h.sendable.length_eq
  rw [h.bytes_eq] at hlen
  rw [← List.length_eq_zero_iff, hlen, ← UInt16.toNat_inj]
  rfl

/-- What is written of a packet is its payload. -/
theorem IsPacket.written_eq (h : IsPacket file j packet) : written packet = file j := by
  unfold written pktGetPayload
  rw [if_neg (not_not.mpr h.tr_eq), h.payload_eq]
  exact List.take_of_length_le h.length_eq.ge

/-! ## The stack as a set of packets -/

/-- The stack has one node for each packet of `held`, in any order. -/
def Buffers (file : ℕ → List UInt8) (held : ℕ → Prop) (stack : Stack) : Prop :=
  ∃ nodes : List (ℕ × Node), stack = nodes.map Prod.snd ∧ (nodes.map Prod.fst).Nodup ∧
    (∀ i, i ∈ nodes.map Prod.fst ↔ held i) ∧
    ∀ p ∈ nodes, p.2.seqnum = UInt8.ofNat p.1 ∧ IsPacket file p.1 p.2.pkt

variable {held : ℕ → Prop} {stack : Stack}

theorem buffers_nil (h : ∀ i, ¬ held i) : Buffers file held [] :=
  ⟨[], rfl, List.nodup_nil, fun i => by simp [h i], by simp⟩

theorem Buffers.imp {held' : ℕ → Prop} (h : Buffers file held stack)
    (hiff : ∀ i, held i ↔ held' i) : Buffers file held' stack := by
  obtain ⟨nodes, hstack, hnodup, hmem, hnodes⟩ := h
  exact ⟨nodes, hstack, hnodup, fun i => (hmem i).trans (hiff i), hnodes⟩

theorem Buffers.seqnum (h : Buffers file held stack) {node : Node} (hn : node ∈ stack) :
    ∃ i, held i ∧ node.seqnum = UInt8.ofNat i := by
  obtain ⟨nodes, rfl, -, hmem, hnodes⟩ := h
  obtain ⟨p, hp, rfl⟩ := List.mem_map.mp hn
  exact ⟨p.1, (hmem p.1).mp (List.mem_map_of_mem hp), (hnodes p hp).1⟩

/-- A node of the stack is one of the packets. -/
theorem Buffers.isPacket (h : Buffers file held stack) {node : Node} (hn : node ∈ stack) :
    ∃ i, held i ∧ IsPacket file i node.pkt := by
  obtain ⟨nodes, rfl, -, hmem, hnodes⟩ := h
  obtain ⟨p, hp, rfl⟩ := List.mem_map.mp hn
  exact ⟨p.1, (hmem p.1).mp (List.mem_map_of_mem hp), (hnodes p hp).2⟩

/-- Each of the packets has its node. -/
theorem Buffers.hasNode (h : Buffers file held stack) (hj : held j) :
    ∃ node ∈ stack, IsPacket file j node.pkt := by
  obtain ⟨nodes, rfl, -, hmem, hnodes⟩ := h
  obtain ⟨p, hp, rfl⟩ := List.mem_map.mp ((hmem j).mpr hj)
  exact ⟨p.2, List.mem_map_of_mem hp, (hnodes p hp).2⟩

/-- `is_in_stack` finds a packet by its number when the number is its own. -/
theorem Buffers.isInStack_iff (h : Buffers file held stack)
    (hown : ∀ i, held i → UInt8.ofNat i = UInt8.ofNat j → i = j) :
    isInStack stack (UInt8.ofNat j) = true ↔ held j := by
  rw [Trtp.isInStack_iff]
  constructor
  · rintro ⟨node, hn, hseq⟩
    obtain ⟨i, hi, hnode⟩ := h.seqnum hn
    exact hown i hi (hnode.symm.trans hseq) ▸ hi
  · intro hj
    obtain ⟨nodes, rfl, -, hmem, hnodes⟩ := h
    obtain ⟨p, hp, rfl⟩ := List.mem_map.mp ((hmem j).mpr hj)
    exact ⟨p.2, List.mem_map_of_mem hp, (hnodes p hp).1⟩

/-- `stack_enqueue` adds the packet, wherever it puts the node. -/
theorem Buffers.enqueue (h : Buffers file held stack) (hj : ¬ held j)
    (hp : IsPacket file j packet) :
    Buffers file (fun i => i = j ∨ held i) (stackEnqueue stack packet) := by
  obtain ⟨nodes, hstack, hnodup, hmem, hnodes⟩ := h
  obtain ⟨front, back, hsplit, hput⟩ := stackEnqueue_split stack packet
  obtain ⟨nf, nb, rfl, rfl, rfl⟩ := List.map_eq_append_iff.mp (hstack.symm.trans hsplit)
  have hperm : ((nf ++ (j, (⟨packet, packet.seqnum⟩ : Node)) :: nb).map Prod.fst).Perm
      (j :: (nf ++ nb).map Prod.fst) := by
    rw [List.map_append, List.map_cons, List.map_append]
    exact List.perm_middle
  refine ⟨nf ++ (j, ⟨packet, packet.seqnum⟩) :: nb, ?_, ?_, ?_, ?_⟩
  · rw [hput, List.map_append, List.map_cons]
  · rw [hperm.nodup_iff, List.nodup_cons]
    exact ⟨fun hm => hj ((hmem j).mp hm), hnodup⟩
  · intro i
    rw [hperm.mem_iff, List.mem_cons, hmem]
  · intro p hpn
    rcases List.mem_append.mp hpn with hpn | hpn
    · exact hnodes p (List.mem_append_left nb hpn)
    · rcases List.mem_cons.mp hpn with rfl | hpn
      · exact ⟨hp.seqnum_eq, hp⟩
      · exact hnodes p (List.mem_append_right nf hpn)

theorem Buffers.remove_absent (h : Buffers file held stack)
    (hown : ∀ i, held i → UInt8.ofNat i ≠ UInt8.ofNat k) :
    stackRemove stack (UInt8.ofNat k) = (none, stack) := by
  apply stackRemove_of_absent
  intro node hn hseq
  obtain ⟨i, hi, hnode⟩ := h.seqnum hn
  exact hown i hi (hnode.symm.trans hseq)

/-- `stack_remove` takes out the packet with its number. -/
theorem Buffers.remove (h : Buffers file held stack) (hk : held k)
    (hown : ∀ i, held i → UInt8.ofNat i = UInt8.ofNat k → i = k) :
    ∃ packet rest, stackRemove stack (UInt8.ofNat k) = (some packet, rest) ∧
      IsPacket file k packet ∧ Buffers file (fun i => held i ∧ i ≠ k) rest := by
  obtain ⟨nodes, rfl, hnodup, hmem, hnodes⟩ := h
  obtain ⟨⟨i, node⟩, hp, rfl⟩ := List.mem_map.mp ((hmem k).mpr hk)
  obtain ⟨nf, nb, rfl⟩ := List.append_of_mem hp
  rw [List.map_append, List.map_cons] at hnodup
  have hperm : (nf.map Prod.fst ++ i :: nb.map Prod.fst).Perm
      (i :: (nf.map Prod.fst ++ nb.map Prod.fst)) := List.perm_middle
  rw [hperm.nodup_iff, List.nodup_cons, ← List.map_append] at hnodup
  have hne : ∀ q ∈ nf ++ nb, q.1 ≠ i := fun q hq hqi =>
    hnodup.1 (hqi ▸ List.mem_map_of_mem hq)
  have hin : ∀ q ∈ nf ++ nb, q ∈ nf ++ (i, node) :: nb := by
    intro q hq
    rcases List.mem_append.mp hq with hq | hq
    · exact List.mem_append_left _ hq
    · exact List.mem_append_right nf (List.mem_cons_of_mem _ hq)
  refine ⟨node.pkt, (nf ++ nb).map Prod.snd, ?_, (hnodes _ hp).2, nf ++ nb, rfl, hnodup.2, ?_,
    fun q hq => hnodes q (hin q hq)⟩
  · rw [List.map_append, List.map_append, List.map_cons]
    refine stackRemove_split (fun n hn hseq => ?_) (hnodes _ hp).1
    obtain ⟨q, hq, rfl⟩ := List.mem_map.mp hn
    have hq' := List.mem_append_left nb hq
    have hheld : held q.1 := (hmem q.1).mp (List.mem_map_of_mem (hin q hq'))
    exact hne q hq' (hown q.1 hheld ((hnodes q (hin q hq')).1.symm.trans hseq))
  · intro a
    change _ ↔ held a ∧ a ≠ i
    rw [← hmem a, List.map_append, List.map_append, List.map_cons, hperm.mem_iff, List.mem_cons,
      ← List.map_append]
    constructor
    · intro ha
      exact ⟨Or.inr ha, fun hai => hnodup.1 (hai ▸ ha)⟩
    · rintro ⟨ha | ha, hai⟩
      · exact absurd ha hai
      · exact ha

/-- Packets in an interval: no more nodes than numbers. -/
theorem Buffers.length_le {lo hi : ℕ} (h : Buffers file held stack)
    (hin : ∀ i, held i → lo < i ∧ i < hi) : stack.length ≤ hi - lo - 1 := by
  obtain ⟨nodes, rfl, hnodup, hmem, -⟩ := h
  have hsub : (nodes.map Prod.fst).toFinset ⊆ Finset.Ioo lo hi := by
    intro i hi'
    rw [List.mem_toFinset, hmem] at hi'
    exact Finset.mem_Ioo.mpr (hin i hi')
  have hcard := Finset.card_le_card hsub
  rw [List.toFinset_card_of_nodup hnodup, Nat.card_Ioo, List.length_map] at hcard
  rwa [List.length_map]

/-- What a node holds of its packet, its time of arrival apart. -/
def Node.content (node : Node) : UInt8 × UInt8 × PType × Option (List UInt8) :=
  (node.seqnum, node.pkt.seqnum, node.pkt.type, node.pkt.payload)

/-- Two stacks that hold the same packets are rearrangements of each other. -/
theorem Buffers.perm {stack' : Stack} (h : Buffers file held stack)
    (h' : Buffers file held stack') :
    (stack.map Node.content).Perm (stack'.map Node.content) := by
  have hcontent : ∀ {nodes : List (ℕ × Node)},
      (∀ p ∈ nodes, p.2.seqnum = UInt8.ofNat p.1 ∧ IsPacket file p.1 p.2.pkt) →
      (nodes.map Prod.snd).map Node.content = (nodes.map Prod.fst).map
        fun i => (UInt8.ofNat i, UInt8.ofNat i, PType.data, some (file i)) := by
    intro nodes hnodes
    rw [List.map_map, List.map_map]
    refine List.map_congr_left fun p hp => ?_
    obtain ⟨hseq, hpacket⟩ := hnodes p hp
    simp only [Function.comp, Node.content, hseq, hpacket.seqnum_eq, hpacket.type_eq,
      hpacket.payload_eq]
  obtain ⟨nodes, rfl, hnodup, hmem, hnodes⟩ := h
  obtain ⟨nodes', rfl, hnodup', hmem', hnodes'⟩ := h'
  rw [hcontent hnodes, hcontent hnodes']
  exact ((List.perm_ext_iff_of_nodup hnodup hnodup').mpr
    fun i => (hmem i).trans (hmem' i).symm).map _

/-! ## The receiver's state as a set of packets -/

/-- The loop's state after the packets of `S` were accepted. -/
structure Represents (file : ℕ → List UInt8) (S : Finset ℕ) (r : Receiver) : Prop where
  expected_eq : r.expectedSeqnum = UInt8.ofNat (next S)
  output_eq : r.output = (List.range (next S)).map file
  within : Within 31 S
  buffers : Buffers file (fun i => i ∈ S ∧ next S < i) r.receivingStack
  window_eq : r.window = windowLeft r.receivingStack
  open_eq : r.closed = false

variable {S : Finset ℕ} {r : Receiver}

theorem represents_start (file : ℕ → List UInt8) : Represents file ∅ Receiver.start where
  expected_eq := by rw [next_empty]; rfl
  output_eq := by rw [next_empty]; rfl
  within := fun i hi => absurd hi (Finset.notMem_empty i)
  buffers := buffers_nil fun i hi => absurd hi.1 (Finset.notMem_empty i)
  window_eq := by decide
  open_eq := rfl

theorem Represents.length_le (h : Represents file S r) : r.receivingStack.length ≤ 30 := by
  have hle := h.buffers.length_le fun i hi => ⟨hi.2, h.within i hi.1⟩
  omega

/-- The advertised window is never 0. -/
theorem Represents.toNat_window (h : Represents file S r) :
    r.window.toNat = 31 - r.receivingStack.length := by
  have hle := h.length_le
  rw [h.window_eq, toNat_windowLeft (by omega)]

/-- A number in the stack is that of a packet accepted behind the one that is waited for. -/
theorem Represents.stored {seqnum : UInt8} (h : Represents file S r)
    (hin : isInStack r.receivingStack seqnum = true) :
    ∃ i ∈ S, next S < i ∧ i < next S + 31 ∧ seqnum = UInt8.ofNat i := by
  obtain ⟨node, hnode, rfl⟩ := isInStack_iff.mp hin
  obtain ⟨i, ⟨hi, hlt⟩, hseq⟩ := h.buffers.seqnum hnode
  exact ⟨i, hi, hlt, h.within i hi, hseq⟩

/-- The number of a packet behind the expected one and inside the window. -/
theorem Represents.number_ahead (h : Represents file S r) (hlo : next S < j)
    (hhi : j < next S + 31) :
    UInt8.ofNat j ≠ r.expectedSeqnum ∧ isExpected r.expectedSeqnum (UInt8.ofNat j) := by
  rw [h.expected_eq, isExpected, inWindow_iff, offset_ofNat_of_le hlo.le (by omega)]
  refine ⟨fun hc => ?_, by omega⟩
  have := ofNat_inj_of_near hc (by omega) (by omega)
  omega

/-- The receiver's state in terms of the arrived set, with the number of packets delivered. -/
structure Refines (file : ℕ → List UInt8) (S : Finset ℕ) (r : Receiver) : Prop where
  delivered : ∀ i < r.output.length, i ∈ S
  missing : r.output.length ∉ S
  output_eq : r.output = (List.range r.output.length).map file
  buffers : Buffers file (fun i => i ∈ S ∧ r.output.length < i) r.receivingStack
  window_eq : r.window.toNat = 31 - r.receivingStack.length
  expected_eq : r.expectedSeqnum = UInt8.ofNat r.output.length

theorem Represents.length_output (h : Represents file S r) : r.output.length = next S := by
  rw [h.output_eq, List.length_map, List.length_range]

theorem Represents.refines (h : Represents file S r) : Refines file S r := by
  have hlen := h.length_output
  refine ⟨fun i hi => mem_of_lt_next (hlen ▸ hi), hlen ▸ next_notMem S, ?_, ?_, h.toNat_window, ?_⟩
  · rw [hlen]
    exact h.output_eq
  · rw [hlen]
    exact h.buffers
  · rw [hlen]
    exact h.expected_eq

/-- The drain loop's state: everything below `k` is written, `S` is what was accepted. -/
structure Draining (file : ℕ → List UInt8) (S : Finset ℕ) (k : ℕ) (r : Receiver) : Prop where
  expected_eq : r.expectedSeqnum = UInt8.ofNat k
  output_eq : r.output = (List.range k).map file
  below : ∀ i < k, i ∈ S
  within : ∀ i ∈ S, i < k + 31
  buffers : Buffers file (fun i => i ∈ S ∧ k ≤ i) r.receivingStack
  window_eq : r.window = windowLeft r.receivingStack
  open_eq : r.closed = false

/-- A missing packet ends the loop. -/
theorem Draining.represents (h : Draining file S k r) (hk : k ∉ S) : Represents file S r := by
  have hnext : next S = k := next_eq h.below hk
  refine ⟨hnext ▸ h.expected_eq, hnext ▸ h.output_eq, fun i hi => hnext ▸ h.within i hi,
    h.buffers.imp fun i => ?_, h.window_eq, h.open_eq⟩
  rw [hnext]
  constructor
  · rintro ⟨hi, hki⟩
    exact ⟨hi, lt_of_le_of_ne hki fun hc => hk (hc ▸ hi)⟩
  · rintro ⟨hi, hki⟩
    exact ⟨hi, hki.le⟩

/-- One round: packet `k` leaves the stack. -/
theorem Draining.step (h : Draining file S k r) (hk : k ∈ S) :
    ∃ packet rest, stackRemove r.receivingStack r.expectedSeqnum = (some packet, rest) ∧
      Draining file S (k + 1)
        { r with
          output := r.output ++ [written packet]
          expectedSeqnum := incrementSeqnum r.expectedSeqnum
          receivingStack := rest
          window := windowLeft rest } := by
  have hown : ∀ i, (i ∈ S ∧ k ≤ i) → UInt8.ofNat i = UInt8.ofNat k → i = k := by
    rintro i ⟨hi, hki⟩ heq
    have := h.within i hi
    exact ofNat_inj_of_near heq (by omega) (by omega)
  obtain ⟨packet, rest, hrem, hpacket, hrest⟩ := h.buffers.remove ⟨hk, le_refl k⟩ hown
  rw [h.expected_eq]
  refine ⟨packet, rest, hrem, by rw [incrementSeqnum_ofNat], ?_, fun i hi => ?_, fun i hi => ?_,
    hrest.imp fun i => ?_, rfl, h.open_eq⟩
  · rw [h.output_eq, hpacket.written_eq, List.range_succ, List.map_append, List.map_singleton]
  · rcases Nat.lt_succ_iff_lt_or_eq.mp hi with hi | rfl
    · exact h.below i hi
    · exact hk
  · have := h.within i hi
    omega
  · constructor
    · rintro ⟨⟨hi, hki⟩, hne⟩
      exact ⟨hi, by omega⟩
    · rintro ⟨hi, hki⟩
      exact ⟨⟨hi, by omega⟩, by omega⟩

/-- **The drain loop stops at the least missing packet.** -/
theorem drain_represents {fuel : ℕ} (ts : UInt32) (h : Draining file S k r)
    (hfuel : r.receivingStack.length ≤ fuel) : Represents file S (drain fuel r ts).1 := by
  induction fuel generalizing k r ts with
  | zero =>
    refine h.represents fun hk => ?_
    obtain ⟨packet, rest, hrem, -⟩ := h.step hk
    have := length_stackRemove hrem
    omega
  | succ fuel ih =>
    by_cases hk : k ∈ S
    · obtain ⟨packet, rest, hrem, hnext⟩ := h.step hk
      have := length_stackRemove hrem
      simp only [drain, hrem]
      exact ih packet.timestamp hnext (by simp only; omega)
    · have hrem : stackRemove r.receivingStack r.expectedSeqnum = (none, r.receivingStack) := by
        rw [h.expected_eq]
        apply h.buffers.remove_absent
        rintro i ⟨hi, hki⟩ heq
        have := h.within i hi
        exact hk (ofNat_inj_of_near heq (by omega) (by omega) ▸ hi)
      simp only [drain, hrem]
      exact h.represents hk

/-! ## One arrival -/

section Arrival

variable [Zlib]

/-- What an accepted packet is answered with: an ACK of the state at the end of the turn, or
nothing when a copy is already in the stack. -/
def Answered (S : Finset ℕ) (j : ℕ) (r' : Receiver) (replies : List (List UInt8)) : Prop :=
  (j ∈ S ∧ next S < j ∧ replies = []) ∨
    ∃ ts, replies = [wire (replyPkt r'.window .ack ts r'.expectedSeqnum)]

theorem accept_expected (h : Represents file S r) (hp : IsPacket file (next S) packet)
    (ts : UInt32) :
    Represents file (absorb 31 S (next S)) (accept r packet ts).1 ∧
      Answered S (next S) (accept r packet ts).1 (accept r packet ts).2 := by
  have hseq : packet.seqnum = r.expectedSeqnum := hp.seqnum_eq.trans h.expected_eq.symm
  have habsorb : absorb 31 S (next S) = insert (next S) S := if_pos ⟨le_refl _, by omega⟩
  have hdrain : Draining file (absorb 31 S (next S)) (next S + 1)
      { r with
        output := r.output ++ [written packet]
        expectedSeqnum := incrementSeqnum r.expectedSeqnum } := by
    rw [habsorb]
    refine ⟨by rw [h.expected_eq, incrementSeqnum_ofNat], ?_, fun i hi => ?_, fun i hi => ?_,
      h.buffers.imp fun i => ?_, h.window_eq, h.open_eq⟩
    · rw [h.output_eq, hp.written_eq, List.range_succ, List.map_append, List.map_singleton]
    · rw [Finset.mem_insert]
      rcases Nat.lt_succ_iff_lt_or_eq.mp hi with hi | rfl
      · exact Or.inr (mem_of_lt_next hi)
      · exact Or.inl rfl
    · rcases Finset.mem_insert.mp hi with rfl | hi
      · omega
      · have := h.within i hi
        omega
    · rw [Finset.mem_insert]
      constructor
      · rintro ⟨hi, hlt⟩
        exact ⟨Or.inr hi, hlt⟩
      · rintro ⟨rfl | hi, hlt⟩
        · omega
        · exact ⟨hi, hlt⟩
  have hrep := drain_represents ts hdrain (le_refl _)
  rw [accept_inOrder hseq]
  exact ⟨hrep, Or.inr ⟨_, rfl⟩⟩

theorem accept_window (h : Represents file S r) (hp : IsPacket file j packet) (ts : UInt32)
    (hlo : next S < j) (hhi : j < next S + 31) :
    Represents file (absorb 31 S j) (accept r packet ts).1 ∧
      Answered S j (accept r packet ts).1 (accept r packet ts).2 := by
  obtain ⟨hne, hwin⟩ := h.number_ahead hlo hhi
  rw [← hp.seqnum_eq] at hne hwin
  have hown : ∀ i, (i ∈ S ∧ next S < i) → UInt8.ofNat i = UInt8.ofNat j → i = j := by
    rintro i ⟨hi, hlt⟩ heq
    have := h.within i hi
    exact ofNat_inj_of_near heq (by omega) (by omega)
  have hin : isInStack r.receivingStack packet.seqnum = true ↔ j ∈ S := by
    rw [hp.seqnum_eq, h.buffers.isInStack_iff hown]
    exact and_iff_left hlo
  by_cases hj : j ∈ S
  · rw [accept_duplicate hne hwin (hin.mpr hj), absorb_of_mem hj]
    exact ⟨h, Or.inl ⟨hj, hlo, rfl⟩⟩
  · have habsorb : absorb 31 S j = insert j S := if_pos ⟨hlo.le, hhi⟩
    have hnext : next (insert j S) = next S := by
      rw [← habsorb]
      exact next_absorb_of_ne (by omega)
    rw [accept_stored hne hwin (mt hin.mp hj), habsorb]
    refine ⟨⟨hnext.symm ▸ h.expected_eq, hnext.symm ▸ h.output_eq, habsorb ▸
      within_absorb h.within, (h.buffers.enqueue (fun hc => hj hc.1) hp).imp fun i => ?_, rfl,
      h.open_eq⟩, Or.inr ⟨_, rfl⟩⟩
    rw [hnext, Finset.mem_insert]
    constructor
    · rintro (rfl | ⟨hi, hlt⟩)
      · exact ⟨Or.inl rfl, hlo⟩
      · exact ⟨Or.inr hi, hlt⟩
    · rintro ⟨rfl | hi, hlt⟩
      · exact Or.inl rfl
      · exact Or.inr ⟨hi, hlt⟩

theorem accept_outside (h : Represents file S r) (hp : IsPacket file j packet) (ts : UInt32)
    (hout : j < next S ∧ next S ≤ j + 225 ∨ next S + 31 ≤ j ∧ j ≤ next S + 255) :
    Represents file (absorb 31 S j) (accept r packet ts).1 ∧
      Answered S j (accept r packet ts).1 (accept r packet ts).2 := by
  have hoff : 31 ≤ offset r.expectedSeqnum packet.seqnum := by
    rw [hp.seqnum_eq, h.expected_eq, offset_ofNat]
    omega
  have hne : packet.seqnum ≠ r.expectedSeqnum := by
    intro hc
    rw [hc, offset_self] at hoff
    omega
  have hwin : ¬ isExpected r.expectedSeqnum packet.seqnum := by
    rw [isExpected, inWindow_iff]
    omega
  have habsorb : absorb 31 S j = S := if_neg (by omega)
  rw [accept_outOfSequence hne hwin, habsorb]
  exact ⟨h, Or.inr ⟨_, rfl⟩⟩

/-- **One arrival is one `absorb`.** -/
theorem accept_represents (h : Represents file S r) (hp : IsPacket file j packet) (ts : UInt32)
    (hlate : next S ≤ j + 225) (hearly : j ≤ next S + 255) :
    Represents file (absorb 31 S j) (accept r packet ts).1 ∧
      Answered S j (accept r packet ts).1 (accept r packet ts).2 := by
  rcases Nat.lt_trichotomy j (next S) with hlt | rfl | hlt
  · exact accept_outside h hp ts (Or.inl ⟨hlt, hlate⟩)
  · exact accept_expected h hp ts
  · by_cases hwin : j < next S + 31
    · exact accept_window h hp ts hlt hwin
    · exact accept_outside h hp ts (Or.inr ⟨by omega, hearly⟩)

/-! ## Segments of packets -/

theorem IsData.received {pkt : Pkt} (h : IsData file j pkt) : IsPacket file j (received pkt) where
  seqnum_eq := h.seqnum_eq
  type_eq := h.type_eq
  tr_eq := h.sendable.tr_eq
  length_eq := by rw [← h.bytes_eq]; exact h.sendable.length_eq.symm
  payload_eq := congrArg some h.bytes_eq

/-- A packet of the file in order that has no payload ends the loop: five ACKs behind it. -/
theorem receive_terminating {pkt : Pkt} (h : IsData file j pkt) (hfile : file j = [])
    (hexp : r.expectedSeqnum = UInt8.ofNat j) (dangling : Pkt) :
    receive dangling r (wire pkt) =
      ({ r with expectedSeqnum := UInt8.ofNat (j + 1), closed := true },
        List.replicate 5 (wire (replyPkt r.window .ack pkt.timestamp (UInt8.ofNat (j + 1))))) := by
  have hget : pktGetTr (received pkt) = 0 := by
    rw [pktGetTr, show (received pkt).tr = 0 from h.sendable.tr_eq]
    rfl
  have hclose : Closing r (received pkt) :=
    ⟨h.type_eq, h.length_eq_zero.mpr hfile, hget, h.seqnum_eq.trans hexp.symm⟩
  rw [receive_closing (accepted_wire h.sendable) hclose, hexp, incrementSeqnum_ofNat]
  rfl

/-- Every other packet of the file is accepted by its number. -/
theorem receive_data {pkt : Pkt} (h : IsData file j pkt)
    (hgo : file j ≠ [] ∨ r.expectedSeqnum ≠ UInt8.ofNat j) (dangling : Pkt) :
    receive dangling r (wire pkt) = accept r (received pkt) pkt.timestamp := by
  refine receive_accepted (accepted_wire h.sendable) h.sendable.tr_eq ?_ dangling
  rintro ⟨-, hlen, -, hseq⟩
  rcases hgo with hgo | hgo
  · exact hgo (h.length_eq_zero.mp hlen)
  · exact hgo (hseq.symm.trans h.seqnum_eq)

/-! ## Runs -/

/-- An arriving datagram, with the number of its packet in the file. -/
structure Arrival where
  index : ℕ
  datagram : List UInt8
  dangling : Pkt

/-- The datagram is what `pkt_encode` makes of packet `index`, which has a payload. -/
def Arrival.IsFrame (file : ℕ → List UInt8) (a : Arrival) : Prop :=
  ∃ (pkt : Pkt) (buf : Buffer), IsData file a.index pkt ∧ file a.index ≠ [] ∧
    a.datagram = (pktEncode pkt buf.1 528).segment

/-- The receiver's turn, beside the set of the packets that arrived inside the window of the
packets delivered so far. -/
def arrive (s : Finset ℕ × Receiver) (a : Arrival) : Finset ℕ × Receiver :=
  (if s.2.output.length ≤ a.index ∧ a.index ≤ s.2.output.length + 30 then insert a.index s.1
    else s.1, (receive a.dangling s.2 a.datagram).1)

/-- Every datagram is a frame of the file, at most 225 packets late and 255 early. -/
def Admissible (file : ℕ → List UInt8) : Finset ℕ × Receiver → List Arrival → Prop
  | _, [] => True
  | s, a :: as => a.IsFrame file ∧ s.2.output.length ≤ a.index + 225 ∧
      a.index ≤ s.2.output.length + 255 ∧ Admissible file (arrive s a) as

/-- All arrivals from the start. -/
def arriveAll (as : List Arrival) : Finset ℕ × Receiver := as.foldl arrive (∅, Receiver.start)

/-- The set of the run is that of the window machine. -/
theorem arrive_fst {s : Finset ℕ × Receiver} (h : Represents file s.1 s.2) (a : Arrival) :
    (arrive s a).1 = absorb 31 s.1 a.index := by
  rw [arrive, absorb, h.length_output]
  exact if_congr (and_congr_right fun _ => Nat.lt_succ_iff.symm) rfl rfl

/-- The step of the run. -/
theorem arrive_represents {s : Finset ℕ × Receiver} {a : Arrival} (h : Represents file s.1 s.2)
    (ha : a.IsFrame file) (hlate : s.2.output.length ≤ a.index + 225)
    (hearly : a.index ≤ s.2.output.length + 255) :
    Represents file (arrive s a).1 (arrive s a).2 := by
  obtain ⟨pkt, buf, hdata, hfile, hframe⟩ := ha
  rw [segment_pktEncode hdata.sendable buf.1 (length_wire_le hdata.sendable)] at hframe
  rw [h.length_output] at hlate hearly
  rw [arrive_fst h, arrive, hframe, receive_data hdata (Or.inl hfile)]
  exact (accept_represents h hdata.received pkt.timestamp hlate hearly).1

/-- **The run**, by induction on the arrivals. -/
theorem arriveAll_represents {s : Finset ℕ × Receiver} {as : List Arrival}
    (h : Represents file s.1 s.2) (has : Admissible file s as) :
    Represents file (as.foldl arrive s).1 (as.foldl arrive s).2 := by
  induction as generalizing s with
  | nil => exact h
  | cons a as ih =>
    obtain ⟨hframe, hlate, hearly, hrest⟩ := has
    exact ih (arrive_represents h hframe hlate hearly) hrest

/-- **The receiver refines the set of the packets that arrived in its window**: after every run of
admissible arrivals its state is the one `Refines` states, and two runs with the same set end with
the same output, expected number and window, and with the same packets in their stacks. -/
theorem receive_refines {as bs : List Arrival} (has : Admissible file (∅, Receiver.start) as)
    (hbs : Admissible file (∅, Receiver.start) bs) :
    Refines file (arriveAll as).1 (arriveAll as).2 ∧
      ((arriveAll as).1 = (arriveAll bs).1 →
        (arriveAll as).2.output = (arriveAll bs).2.output ∧
        (arriveAll as).2.expectedSeqnum = (arriveAll bs).2.expectedSeqnum ∧
        (arriveAll as).2.window = (arriveAll bs).2.window ∧
        ((arriveAll as).2.receivingStack.map Node.content).Perm
          ((arriveAll bs).2.receivingStack.map Node.content)) := by
  have ha : Represents file (arriveAll as).1 (arriveAll as).2 :=
    arriveAll_represents (represents_start file) has
  have hb : Represents file (arriveAll bs).1 (arriveAll bs).2 :=
    arriveAll_represents (represents_start file) hbs
  refine ⟨ha.refines, fun hS => ?_⟩
  rw [← hS] at hb
  have hperm := ha.buffers.perm hb.buffers
  have hlen := hperm.length_eq
  rw [List.length_map, List.length_map] at hlen
  exact ⟨ha.output_eq.trans hb.output_eq.symm, ha.expected_eq.trans hb.expected_eq.symm,
    by rw [ha.window_eq, hb.window_eq, windowLeft, windowLeft, hlen], hperm⟩

/-- Any order and number of the first 225 packets is admissible. -/
theorem admissible_of_lt {s : Finset ℕ × Receiver} {as : List Arrival}
    (h : Represents file s.1 s.2) (hS : ∀ i ∈ s.1, i < 225)
    (hframes : ∀ a ∈ as, a.IsFrame file ∧ a.index < 225) : Admissible file s as := by
  induction as generalizing s with
  | nil => trivial
  | cons a as ih =>
    obtain ⟨hframe, hlt⟩ := hframes a List.mem_cons_self
    have hle : s.2.output.length ≤ 225 := by
      rw [h.length_output]
      exact next_le fun hm => absurd (hS 225 hm) (by omega)
    have hlate : s.2.output.length ≤ a.index + 225 := by omega
    have hearly : a.index ≤ s.2.output.length + 255 := by omega
    refine ⟨hframe, hlate, hearly, ih (arrive_represents h hframe hlate hearly) (fun i hi => ?_)
      fun b hb => hframes b (List.mem_cons_of_mem a hb)⟩
    rw [arrive_fst h] at hi
    rcases mem_absorb hi with hi | rfl
    · exact hS i hi
    · exact hlt

end Arrival

/-- A file whose packets hold their numbers. -/
def numbered (i : ℕ) : List UInt8 := [UInt8.ofNat i]

/-- The arrival of packet `i` of it. -/
def numberedArrival [Zlib] (i : ℕ) : Arrival :=
  { index := i, datagram := (pktEncode (numberedPacket i) cleared.1 528).segment,
    dangling := pktNew }

theorem isFrame_numberedArrival [Zlib] (i : ℕ) : (numberedArrival i).IsFrame numbered :=
  ⟨numberedPacket i, cleared, ⟨sendable_numberedPacket i, rfl, rfl, rfl⟩, List.cons_ne_nil _ _,
    rfl⟩

theorem admissible_numberedArrival [Zlib] {is : List ℕ} (h : ∀ i ∈ is, i < 225) :
    Admissible numbered (∅, Receiver.start) (is.map numberedArrival) := by
  refine admissible_of_lt (represents_start numbered) (fun i hi => absurd hi (by simp)) ?_
  intro a ha
  obtain ⟨i, hi, rfl⟩ := List.mem_map.mp ha
  exact ⟨isFrame_numberedArrival i, h i hi⟩

/-- Packets 0, 1 and 2 behind later ones and repeated: packet 2 is drained from the stack. -/
def backwards [Zlib] : List Arrival := [5, 4, 2, 2, 0, 1].map numberedArrival

/-- The same packets in order. -/
def forwards [Zlib] : List Arrival := [0, 1, 2, 4, 5].map numberedArrival

open Zlib.Standard in
/-- Two orders of the same packets: the two stacks are rearrangements of each other only. -/
theorem receive_refines_orders :
    (Refines numbered (arriveAll backwards).1 (arriveAll backwards).2 ∧
      (arriveAll backwards).2.output = (arriveAll forwards).2.output ∧
      (arriveAll backwards).2.expectedSeqnum = (arriveAll forwards).2.expectedSeqnum ∧
      (arriveAll backwards).2.window = (arriveAll forwards).2.window ∧
      ((arriveAll backwards).2.receivingStack.map Node.content).Perm
        ((arriveAll forwards).2.receivingStack.map Node.content)) ∧
    (arriveAll backwards).2.output = [[0], [1], [2]] ∧
      (arriveAll backwards).2.receivingStack.map Node.seqnum = [5, 4] ∧
      (arriveAll forwards).2.receivingStack.map Node.seqnum = [4, 5] := by
  have hsets : (arriveAll backwards).1 = (arriveAll forwards).1 := by decide +kernel
  obtain ⟨hrefines, hsame⟩ := receive_refines
    (admissible_numberedArrival (by decide : ∀ i ∈ [5, 4, 2, 2, 0, 1], i < 225))
    (admissible_numberedArrival (by decide : ∀ i ∈ [0, 1, 2, 4, 5], i < 225))
  exact ⟨⟨hrefines, hsame hsets⟩, by decide +kernel, by decide +kernel, by decide +kernel⟩

end Trtp
