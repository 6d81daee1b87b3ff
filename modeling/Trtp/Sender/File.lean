import Trtp.Receiver.Refine
import Trtp.Sender.Step

/-!
# Cutting a file into packets (`src/sender.c:229-331`)

`read_file` from its first `read` on. A read result is a `Chunk`, 1 to 512 bytes; the `read` that
returns 0 ends the list. `contents chunks i` is what packet `i` carries: the chunks, then nothing.

* `Holds file N a stack`: the stack is packets `a`, ..., `N - 1` in order.
* `readFile_holds`: **the file fills the stack in order**, across every wrap of the numbers.
* `readFile_segments`: **packet `i` carries chunk `i`**, and every enqueueing is at the end.
* `Holds.get`, `Holds.set`, `Holds.removeAcked`: what the sender's lookups do on such a stack.

Premises: the file opens, its reads succeed, `malloc` succeeds. The copy of the standard input into
`stdin.txt` in front of it is left out.
-/

namespace Trtp

/-- What a `read` of the file returns, the last one apart. -/
abbrev Chunk := { bytes : List UInt8 // 0 < bytes.length ∧ bytes.length ≤ maxPayloadSize }

/-- The packet made of a read result. -/
def dataPacket (nextSeqnum : UInt8) (buf : Chunk) : Pkt :=
  let packet := (pktSetType pktNew .data).2
  let packet := (pktSetTr packet 0).2
  let packet := (pktSetSeqnum packet nextSeqnum).2
  (pktSetPayload packet buf.1 (UInt16.ofNat buf.1.length)).2

/-- `terminateconnectionPkt`. -/
def terminatePacket (nextSeqnum : UInt8) : Pkt :=
  let packet := (pktSetType pktNew .data).2
  let packet := (pktSetWindow packet 0).2
  let packet := (pktSetSeqnum packet nextSeqnum).2
  (pktSetLength packet 0).2

/-- `read_file`, from its first `read`. -/
def readFile : List Chunk → UInt8 → Stack → Stack
  | [], nextSeqnum, stack => stackEnqueue stack (terminatePacket nextSeqnum)
  | buf :: bufs, nextSeqnum, stack =>
    readFile bufs (incrementSeqnum nextSeqnum) (stackEnqueue stack (dataPacket nextSeqnum buf))

/-- What packet `i` carries. -/
def contents (chunks : List Chunk) (i : ℕ) : List UInt8 :=
  (chunks[i]?.map Subtype.val).getD []

theorem contents_eq_nil {chunks : List Chunk} {i : ℕ} :
    contents chunks i = [] ↔ chunks.length ≤ i := by
  unfold contents
  cases h : chunks[i]? with
  | none => simpa using h
  | some chunk =>
    obtain ⟨hi, -⟩ := List.getElem?_eq_some_iff.mp h
    have hpos := chunk.2.1
    constructor
    · intro hc
      rw [show chunk.1 = [] from hc] at hpos
      exact absurd hpos (by simp)
    · intro hc
      omega

/-- Behind the last chunk nothing is added. -/
theorem flatten_contents (chunks : List Chunk) {n : ℕ} (h : chunks.length ≤ n) :
    ((List.range n).map (contents chunks)).flatten = (chunks.map Subtype.val).flatten := by
  induction n, h using Nat.le_induction with
  | base =>
    congr 1
    apply List.ext_getElem
    · rw [List.length_map, List.length_range, List.length_map]
    · intro i hi hi'
      rw [List.length_map] at hi'
      simp [contents, List.getElem?_eq_getElem hi']
  | succ n hn ih =>
    rw [List.range_succ, List.map_append, List.flatten_append, ih, List.map_singleton,
      contents_eq_nil.mpr hn]
    simp

/-! ## Stacks of packets in order -/

/-- The stack is packets `a`, ..., `N - 1` of the file, in order. -/
structure Holds (file : ℕ → List UInt8) (N a : ℕ) (stack : Stack) : Prop where
  numbered : Numbered a stack
  length_eq : a + stack.length = N
  data : ∀ (i : ℕ) (node : Node), stack[i]? = some node → IsData file (a + i) node.pkt

variable {file : ℕ → List UInt8} {N a : ℕ} {stack : Stack}

theorem Holds.drop (h : Holds file N a stack) {k : ℕ} (hk : k ≤ stack.length) :
    Holds file N (a + k) (stack.drop k) where
  numbered := h.numbered.drop k
  length_eq := by
    have := h.length_eq
    rw [List.length_drop]
    omega
  data i node hi := by
    rw [List.getElem?_drop] at hi
    rw [Nat.add_assoc]
    exact h.data (k + i) node hi

/-- A lookup by number is a lookup by position. -/
theorem Holds.get (h : Holds file N a stack) {seqnum : UInt8} {pkt : Pkt}
    (hget : stackGetPkt stack seqnum = some pkt) :
    ∃ node, stack[offset (UInt8.ofNat a) seqnum]? = some node ∧ node.pkt = pkt ∧
      IsData file (a + offset (UInt8.ofNat a) seqnum) pkt := by
  rw [stackGetPkt_numbered h.numbered, Option.map_eq_some_iff] at hget
  obtain ⟨node, hnode, rfl⟩ := hget
  exact ⟨node, hnode, rfl, h.data _ node hnode⟩

/-- A packet in the stack is found by its number, less than a turn away from the first. -/
theorem Holds.get_of_getElem? (h : Holds file N a stack) {i : ℕ} {node : Node}
    (hi : stack[i]? = some node) (hlt : i < 256) :
    stackGetPkt stack node.seqnum = some node.pkt := by
  have hoff : offset (UInt8.ofNat a) node.seqnum = i := by
    rw [h.numbered.getElem? hi, offset_ofNat_of_le (by omega) (by omega)]
    omega
  rw [stackGetPkt_numbered h.numbered, hoff, hi]
  rfl

/-- The packet at a number, replaced by one with the same content. -/
theorem Holds.set (h : Holds file N a stack) {seqnum : UInt8} {pkt : Pkt}
    (hp : IsData file (a + offset (UInt8.ofNat a) seqnum) pkt) :
    Holds file N a (stackSetPkt stack seqnum pkt) := by
  rw [stackSetPkt_numbered h.numbered]
  have hseq : ∀ (k : ℕ) (i : ℕ) (nodes : Stack), Numbered k nodes →
      Numbered k (nodes.modify i fun node => { node with pkt := pkt }) := by
    intro k i nodes hnodes
    induction nodes generalizing k i with
    | nil => simpa using hnodes
    | cons node rest ih =>
      cases i with
      | zero => simpa [Numbered] using hnodes
      | succ i =>
        rw [List.modify_succ_cons]
        exact ⟨hnodes.1, ih (k + 1) i hnodes.2⟩
  refine ⟨hseq a _ stack h.numbered, by rw [List.length_modify]; exact h.length_eq, ?_⟩
  intro i node hi
  rw [List.getElem?_modify, Option.map_eq_map, Option.map_eq_some_iff] at hi
  obtain ⟨old, hold, rfl⟩ := hi
  split
  · rename_i hoff
    exact hoff ▸ hp
  · exact h.data i old hold

theorem IsData.getElem?_nil_iff {chunks : List Chunk} {i : ℕ} {pkt : Pkt}
    (h : IsData (contents chunks) i pkt) : pkt.length = 0 ↔ chunks.length ≤ i := by
  rw [h.length_eq_zero, contents_eq_nil]

/-! ## Reading a file -/

/-- A packet behind the others goes to the end of the stack. -/
theorem Holds.enqueue {pkt : Pkt} (h : Holds file N 0 stack) (hp : IsData file N pkt) :
    Holds file (N + 1) 0 (stackEnqueue stack pkt) ∧
      stackEnqueue stack pkt = stack ++ [⟨pkt, pkt.seqnum⟩] := by
  have hlen := h.length_eq
  have hput : stackEnqueue stack pkt = stack ++ [⟨pkt, pkt.seqnum⟩] := by
    apply stackEnqueue_append
    intro last hlast hbefore
    have hget : stack[stack.length - 1]? = some last := by
      rw [← List.getLast?_eq_getElem?]
      exact hlast
    have hpos : 0 < stack.length := by
      rcases Nat.eq_zero_or_pos stack.length with h0 | h0
      · rw [List.length_eq_zero_iff.mp h0] at hlast
        exact absurd hlast (by simp)
      · exact h0
    have hseq := h.numbered.getElem? hget
    unfold goesBefore at hbefore
    have h200 : (200 : UInt8).toNat = 200 := rfl
    have h100 : (100 : UInt8).toNat = 100 := rfl
    rw [hp.seqnum_eq, hseq, gt_iff_lt, UInt8.lt_iff_toNat_lt, UInt8.lt_iff_toNat_lt,
      UInt8.lt_iff_toNat_lt, UInt8.toNat_ofNat', UInt8.toNat_ofNat', h200, h100] at hbefore
    omega
  refine ⟨?_, hput⟩
  rw [hput]
  refine ⟨numbered_append.mpr ⟨h.numbered, ?_, trivial⟩, ?_, ?_⟩
  · rw [hlen]
    exact hp.seqnum_eq
  · rw [List.length_append, List.length_singleton]
    omega
  · intro i node hi
    by_cases hin : i < stack.length
    · rw [List.getElem?_append_left hin] at hi
      exact h.data i node hi
    · rw [List.getElem?_append_right (by omega)] at hi
      have hi0 : i - stack.length = 0 := by
        by_contra hne
        rw [List.getElem?_eq_none (by rw [List.length_singleton]; omega)] at hi
        exact absurd hi (by simp)
      rw [hi0, List.getElem?_cons_zero, Option.some.injEq] at hi
      have : 0 + i = N := by omega
      rw [this, ← hi]
      exact hp

theorem toNat_length_chunk (chunk : Chunk) :
    (UInt16.ofNat chunk.1.length).toNat = chunk.1.length := by
  have := chunk.2.2
  unfold maxPayloadSize at this
  rw [UInt16.toNat_ofNat']
  omega

theorem dataPacket_eq (nextSeqnum : UInt8) (chunk : Chunk) :
    dataPacket nextSeqnum chunk =
      { pktNew with
        type := .data
        seqnum := nextSeqnum
        length := UInt16.ofNat chunk.1.length
        payload := some chunk.1 } := by
  have hlen := toNat_length_chunk chunk
  unfold dataPacket
  simp only [pktSetType, pktSetTr_zero, pktSetSeqnum]
  rw [pktSetPayload_of_le _ _ (hlen.le.trans chunk.2.2), hlen, List.take_length]
  rfl

theorem isData_dataPacket {i : ℕ} {chunk : Chunk} (h : chunk.1 = file i) :
    IsData file i (dataPacket (UInt8.ofNat i) chunk) := by
  have hlen := toNat_length_chunk chunk
  rw [dataPacket_eq]
  exact ⟨⟨by simp, rfl, hlen.symm, hlen.le.trans chunk.2.2⟩, rfl, rfl, h⟩

theorem isData_terminatePacket {i : ℕ} (h : file i = []) :
    IsData file i (terminatePacket (UInt8.ofNat i)) :=
  ⟨⟨by simp [terminatePacket, pktSetType, pktSetWindow, pktSetSeqnum, pktSetLength],
    rfl, rfl, (by decide : (0 : UInt16).toNat ≤ maxPayloadSize)⟩, rfl, rfl, h.symm⟩

theorem timestamp_dataPacket (nextSeqnum : UInt8) (buf : Chunk) :
    (dataPacket nextSeqnum buf).timestamp = 0 := by
  rw [dataPacket_eq]
  rfl

theorem payload_dataPacket (nextSeqnum : UInt8) (chunk : Chunk) :
    (dataPacket nextSeqnum chunk).payload = some chunk.1 ∧
      (dataPacket nextSeqnum chunk).length.toNat = chunk.1.length := by
  rw [dataPacket_eq]
  exact ⟨rfl, toNat_length_chunk chunk⟩

/-- The packets of `read_file` in the order they are made. -/
def packetsFrom : List Chunk → UInt8 → List Pkt
  | [], nextSeqnum => [terminatePacket nextSeqnum]
  | buf :: bufs, nextSeqnum =>
    dataPacket nextSeqnum buf :: packetsFrom bufs (incrementSeqnum nextSeqnum)

/-- The node `stack_enqueue` makes of a packet. -/
def Node.ofPkt (pkt : Pkt) : Node := ⟨pkt, pkt.seqnum⟩

theorem readFile_eq_foldl (chunks : List Chunk) (nextSeqnum : UInt8) (stack : Stack) :
    readFile chunks nextSeqnum stack =
      (packetsFrom chunks nextSeqnum).foldl stackEnqueue stack := by
  induction chunks generalizing nextSeqnum stack with
  | nil => rfl
  | cons buf bufs ih => rw [readFile, ih, packetsFrom, List.foldl_cons]

theorem length_packetsFrom (chunks : List Chunk) (nextSeqnum : UInt8) :
    (packetsFrom chunks nextSeqnum).length = chunks.length + 1 := by
  induction chunks generalizing nextSeqnum with
  | nil => rfl
  | cons buf bufs ih => rw [packetsFrom, List.length_cons, ih, List.length_cons]

/-- Packet `i` is made of chunk `i`, or is the terminating one. -/
theorem getElem?_packetsFrom {chunks : List Chunk} {a i : ℕ} {pkt : Pkt}
    (h : (packetsFrom chunks (UInt8.ofNat a))[i]? = some pkt) :
    (∃ chunk, chunks[i]? = some chunk ∧ pkt = dataPacket (UInt8.ofNat (a + i)) chunk) ∨
      i = chunks.length ∧ pkt = terminatePacket (UInt8.ofNat (a + i)) := by
  induction chunks generalizing a i with
  | nil =>
    obtain ⟨hi, hpkt⟩ := List.getElem?_eq_some_iff.mp h
    obtain rfl : i = 0 := Nat.lt_one_iff.mp hi
    exact Or.inr ⟨rfl, hpkt.symm⟩
  | cons buf bufs ih =>
    rw [packetsFrom, incrementSeqnum_ofNat] at h
    cases i with
    | zero =>
      rw [List.getElem?_cons_zero, Option.some.injEq] at h
      exact Or.inl ⟨buf, rfl, h.symm⟩
    | succ i =>
      rw [List.getElem?_cons_succ] at h
      rw [show a + (i + 1) = a + 1 + i by omega, List.length_cons, List.getElem?_cons_succ,
        Nat.add_right_cancel_iff]
      exact ih h

theorem isData_packetsFrom {chunks : List Chunk} {i : ℕ} {pkt : Pkt}
    (h : (packetsFrom chunks 0)[i]? = some pkt) : IsData (contents chunks) i pkt := by
  rcases getElem?_packetsFrom (a := 0) h with ⟨chunk, hchunk, rfl⟩ | ⟨rfl, rfl⟩
  · rw [Nat.zero_add]
    apply isData_dataPacket
    rw [contents, hchunk]
    rfl
  · rw [Nat.zero_add]
    exact isData_terminatePacket (contents_eq_nil.mpr (le_refl _))

theorem timestamp_packetsFrom {chunks : List Chunk} {i : ℕ} {pkt : Pkt}
    (h : (packetsFrom chunks 0)[i]? = some pkt) : pkt.timestamp = 0 := by
  rcases getElem?_packetsFrom (a := 0) h with ⟨chunk, -, rfl⟩ | ⟨-, rfl⟩
  · exact timestamp_dataPacket _ chunk
  · rfl

/-- **Packets in order fill the stack in order**, one at a time. -/
theorem enqueue_packets {pkts : List Pkt}
    (h : ∀ (i : ℕ) (pkt : Pkt), pkts[i]? = some pkt → IsData file i pkt) :
    pkts.foldl stackEnqueue [] = pkts.map Node.ofPkt ∧
      Holds file pkts.length 0 (pkts.map Node.ofPkt) := by
  induction pkts using List.reverseRecOn with
  | nil => exact ⟨rfl, trivial, rfl, fun i node hi => absurd hi (by simp)⟩
  | append_singleton pkts pkt ih =>
    obtain ⟨hfold, hholds⟩ := ih fun i p hi => h i p (by
      obtain ⟨hlt, -⟩ := List.getElem?_eq_some_iff.mp hi
      rw [List.getElem?_append_left hlt, hi])
    obtain ⟨hnext, hput⟩ := hholds.enqueue (h pkts.length pkt List.getElem?_concat_length)
    rw [hput] at hnext
    rw [List.foldl_append, hfold, List.map_append, List.length_append]
    exact ⟨hput, hnext⟩

theorem readFile_eq_map (chunks : List Chunk) :
    readFile chunks 0 [] = (packetsFrom chunks 0).map Node.ofPkt := by
  rw [readFile_eq_foldl]
  have hdata : ∀ (i : ℕ) (pkt : Pkt), (packetsFrom chunks 0)[i]? = some pkt →
      IsData (contents chunks) i pkt := fun i pkt => isData_packetsFrom
  exact (enqueue_packets hdata).1

/-- **The file fills the stack in order**, never sent. -/
theorem readFile_holds (chunks : List Chunk) :
    Holds (contents chunks) (chunks.length + 1) 0 (readFile chunks 0 []) ∧
      ∀ node ∈ readFile chunks 0 [], node.pkt.timestamp = 0 := by
  rw [readFile_eq_map]
  refine ⟨?_, fun node hn => ?_⟩
  · rw [← length_packetsFrom chunks 0]
    exact (enqueue_packets fun i pkt => isData_packetsFrom).2
  · obtain ⟨pkt, hpkt, rfl⟩ := List.mem_map.mp hn
    obtain ⟨i, hi⟩ := List.mem_iff_getElem?.mp hpkt
    exact timestamp_packetsFrom hi

/-- What `read_file` leaves for a file: packet `i` carries chunk `i` and number `i % 256`, was
never sent, and the empty packet is the last one. -/
structure Segments (chunks : List Chunk) (stack : Stack) : Prop where
  size_eq : stack.length = chunks.length + 1
  header : ∀ (i : ℕ) (node : Node), stack[i]? = some node →
    node.pkt.type = .data ∧ node.pkt.tr = 0 ∧ node.pkt.timestamp = 0 ∧
      node.pkt.seqnum = UInt8.ofNat i ∧ node.seqnum = node.pkt.seqnum
  payload : ∀ (i : ℕ) (chunk : Chunk), chunks[i]? = some chunk → ∃ node, stack[i]? = some node ∧
    node.pkt.payload = some chunk.1 ∧ node.pkt.length.toNat = chunk.1.length
  last : ∀ (i : ℕ) (node : Node), stack[i]? = some node →
    (node.pkt.length = 0 ↔ i = chunks.length)
  file_eq : (stack.map fun node => node.pkt.bytes).flatten = (chunks.map Subtype.val).flatten

theorem flatten_packetsFrom (chunks : List Chunk) (nextSeqnum : UInt8) :
    ((packetsFrom chunks nextSeqnum).map Pkt.bytes).flatten =
      (chunks.map Subtype.val).flatten := by
  induction chunks generalizing nextSeqnum with
  | nil => rfl
  | cons buf bufs ih =>
    rw [packetsFrom, List.map_cons, List.flatten_cons, ih, List.map_cons, List.flatten_cons,
      Pkt.bytes, (payload_dataPacket nextSeqnum buf).1, Option.getD_some]

/-- **Segmentation loses nothing and keeps the order**, and every `stack_enqueue` on the way puts
its packet at the end. -/
theorem readFile_segments (chunks : List Chunk) :
    Segments chunks (readFile chunks 0 []) ∧
      readFile chunks 0 [] = (packetsFrom chunks 0).foldl stackEnqueue [] ∧
      ∀ front pkt back, packetsFrom chunks 0 = front ++ pkt :: back →
        stackEnqueue (front.foldl stackEnqueue []) pkt =
          front.foldl stackEnqueue [] ++ [⟨pkt, pkt.seqnum⟩] := by
  have hget : ∀ (i : ℕ) (node : Node), (readFile chunks 0 [])[i]? = some node →
      ∃ pkt, (packetsFrom chunks 0)[i]? = some pkt ∧ node = Node.ofPkt pkt := by
    intro i node hi
    rw [readFile_eq_map, List.getElem?_map, Option.map_eq_some_iff] at hi
    obtain ⟨pkt, hpkt, rfl⟩ := hi
    exact ⟨pkt, hpkt, rfl⟩
  refine ⟨⟨?_, fun i node hi => ?_, fun i chunk hc => ?_, fun i node hi => ?_, ?_⟩,
    readFile_eq_foldl chunks 0 [], fun front pkt back hsplit => ?_⟩
  · rw [readFile_eq_map, List.length_map, length_packetsFrom]
  · obtain ⟨pkt, hpkt, rfl⟩ := hget i node hi
    have hdata := isData_packetsFrom hpkt
    exact ⟨hdata.type_eq, hdata.sendable.tr_eq, timestamp_packetsFrom hpkt, hdata.seqnum_eq, rfl⟩
  · obtain ⟨hlt, -⟩ := List.getElem?_eq_some_iff.mp hc
    obtain ⟨pkt, hpkt⟩ : ∃ pkt, (packetsFrom chunks 0)[i]? = some pkt :=
      ⟨_, List.getElem?_eq_getElem (by rw [length_packetsFrom]; omega)⟩
    refine ⟨Node.ofPkt pkt, by rw [readFile_eq_map, List.getElem?_map, hpkt]; rfl, ?_⟩
    rcases getElem?_packetsFrom (a := 0) hpkt with ⟨chunk', hchunk', rfl⟩ | ⟨hend, -⟩
    · rw [hc, Option.some.injEq] at hchunk'
      subst hchunk'
      exact payload_dataPacket _ chunk
    · omega
  · obtain ⟨pkt, hpkt, rfl⟩ := hget i node hi
    obtain ⟨hlt, -⟩ := List.getElem?_eq_some_iff.mp hpkt
    rw [length_packetsFrom] at hlt
    refine ((isData_packetsFrom hpkt).getElem?_nil_iff).trans ?_
    omega
  · rw [readFile_eq_map, List.map_map]
    exact flatten_packetsFrom chunks 0
  · have hfront : ∀ (i : ℕ) (p : Pkt), front[i]? = some p → IsData (contents chunks) i p := by
      intro i p hi
      obtain ⟨hlt, -⟩ := List.getElem?_eq_some_iff.mp hi
      apply isData_packetsFrom
      rw [hsplit, List.getElem?_append_left hlt, hi]
    obtain ⟨hfold, hholds⟩ := enqueue_packets hfront
    rw [hfold]
    refine (hholds.enqueue (isData_packetsFrom ?_)).2
    rw [hsplit, List.getElem?_append_right (le_refl _), Nat.sub_self, List.getElem?_cons_zero]

end Trtp
