import Trtp.Receiver.Traffic
import Trtp.Sender.File

/-!
# How the receiver's loop ends (`read_write_loop_receiver.c:129-196`)

The loop is left in one branch only, on the arrival of the terminating packet when it is expected.
A terminating packet that comes early is put into the stack, and the drain loop takes it out as a
packet without payload: it counts as delivered and is acknowledged, and the loop goes on waiting.

* `closes_when`: **when every packet arrived inside the window, the receiver has closed exactly
  when the terminating packet never arrived there ahead of another one**, on runs in which a number
  inside the window means the packet at that place, or is dropped as a copy of a stored one.
* `aliased_written`: a packet a whole turn of the numbers away is written in another one's place.
* `drained_not_closed`: the terminating packet first, then the data.
-/

namespace Trtp

open Trtp.Run Trtp.Reassembly

/-! ## Arrivals of a transfer -/

/-- The datagram is what `pkt_encode` makes of packet `index` of the transfer, the last one
empty. -/
def Arrival.IsSegment [Zlib] (chunks : List Chunk) (a : Arrival) : Prop :=
  a.index ≤ chunks.length ∧ ∃ (pkt : Pkt) (buf : Buffer), IsData (contents chunks) a.index pkt ∧
    a.datagram = (pktEncode pkt buf.1 528).segment

/-- The datagram was damaged on the way: the decoder rejects it. -/
def Arrival.Damaged [Zlib] (a : Arrival) : Prop :=
  (pktDecode (readInto cleared 528 a.datagram) (min 528 a.datagram.length) pktNew).1 ≠ .pktOk

instance [Zlib] (a : Arrival) : Decidable a.Damaged := inferInstanceAs (Decidable (_ ≠ _))

/-- The receiver's turn with an arrival. -/
def Session.arrive [Zlib] (s : Session) (a : Arrival) : Option Session :=
  s.turn ⟨a.datagram, a.dangling⟩

/-- Packet `j` lies in the window of the packets delivered so far. -/
def InWindow (s : Session) (j : ℕ) : Prop :=
  s.receiver.output.length ≤ j ∧ j ≤ s.receiver.output.length + 30

instance (s : Session) (j : ℕ) : Decidable (InWindow s j) :=
  inferInstanceAs (Decidable (_ ∧ _))

/-- The packet arrives undamaged at least once while it lies in the window. -/
def ArrivesInWindow [Zlib] (as : List Arrival) (j : ℕ) : Prop :=
  ∃ pre a post s, as = pre ++ a :: post ∧ a.index = j ∧ ¬ a.Damaged ∧
    exec Session.arrive Session.start pre = some s ∧ InWindow s j

/-- A number inside the window is that of a packet in the window, or one that the stack has, so that
the copy is dropped. -/
def NotAliased [Zlib] (s : Session) (a : Arrival) (_ : Session) : Prop :=
  ¬ a.Damaged → isExpected s.receiver.expectedSeqnum (UInt8.ofNat a.index) →
    InWindow s a.index ∨ isInStack s.receiver.receivingStack (UInt8.ofNat a.index) = true

/-- The terminating packet does not arrive inside the window ahead of another packet. -/
def TerminatingWaits [Zlib] (chunks : List Chunk) (s : Session) (a : Arrival) (_ : Session) :
    Prop :=
  ¬ a.Damaged → a.index = chunks.length → InWindow s a.index →
    s.receiver.output.length = chunks.length

/-- An arrival that the loop was written for. -/
def Orderly [Zlib] (chunks : List Chunk) (s : Session) (a : Arrival) (s' : Session) : Prop :=
  NotAliased s a s' ∧ TerminatingWaits chunks s a s'

instance [Zlib] (chunks : List Chunk) (s : Session) (a : Arrival) (s' : Session) :
    Decidable (Orderly chunks s a s') :=
  inferInstanceAs (Decidable ((_ → _ → InWindow s a.index ∨ _ = _) ∧ (_ → _ → _ → _)))

/-- The loop was left with the whole file written and the terminating packet acknowledged. -/
structure Closes [Zlib] (chunks : List Chunk) (s : Session) : Prop where
  closed : s.receiver.closed = true
  whole : s.receiver.output.flatten = (chunks.map Subtype.val).flatten
  acked : ∃ reply ∈ s.sent, ∀ junk, ∃ packet, replyOf junk reply = (.pktOk, packet) ∧
    packet.type = .ack ∧ packet.seqnum = UInt8.ofNat (chunks.length + 1)

/-- The receiver is waiting, with the packets of a set accepted. -/
def Waiting (chunks : List Chunk) (s : Session) : Prop :=
  ∃ S, Represents (contents chunks) S s.receiver

/-- It waits for a packet behind the last one: the terminating packet is in the stack, or was
drained. -/
def Missed (chunks : List Chunk) (s : Session) : Prop :=
  ∃ S, Represents (contents chunks) S s.receiver ∧ chunks.length ∈ S

theorem waiting_start (chunks : List Chunk) : Waiting chunks Session.start :=
  ⟨∅, represents_start _⟩

section Step

variable [Zlib] {chunks : List Chunk} {S : Finset ℕ} {s s' : Session} {a : Arrival}

theorem Arrival.IsSegment.not_damaged (ha : a.IsSegment chunks) : ¬ a.Damaged := by
  obtain ⟨-, pkt, buf, hdata, hframe⟩ := ha
  rw [segment_pktEncode hdata.sendable buf.1 (length_wire_le hdata.sendable)] at hframe
  have hacc := accepted_wire hdata.sendable
  rw [Accepted] at hacc
  rw [Arrival.Damaged, hframe, hacc]
  simp

/-- **A copy of what is in the stack is dropped**, of whatever turn of the numbers its packet is. -/
theorem receive_copy {file : ℕ → List UInt8} {r : Receiver} {j : ℕ} {pkt : Pkt}
    (h : Represents file S r) (hdata : IsData file j pkt)
    (hin : isInStack r.receivingStack (UInt8.ofNat j) = true) (dangling : Pkt) :
    receive dangling r (wire pkt) = (r, []) ∧ absorb 31 S j = S := by
  obtain ⟨i, hi, hlo, hhi, hnumber⟩ := h.stored hin
  have hseq : (received pkt).seqnum = UInt8.ofNat j := hdata.seqnum_eq
  obtain ⟨hne, hwin⟩ := h.number_ahead hlo hhi
  rw [← hnumber] at hne hwin
  constructor
  · rw [receive_data hdata (Or.inr hne.symm)]
    exact accept_duplicate (hseq ▸ hne) (hseq ▸ hwin) (hseq ▸ hin)
  · by_cases hj : next S ≤ j ∧ j < next S + 31
    · obtain rfl : j = i := ofNat_inj_of_near hnumber (by omega) (by omega)
      exact absorb_of_mem hi
    · exact if_neg hj

/-- A damaged arrival costs a NACK. -/
theorem arrive_damaged (hd : a.Damaged) (hs : s.arrive a = some s') : s'.receiver = s.receiver := by
  obtain ⟨ts, hrec⟩ := receive_of_rejected hd a.dangling s.receiver
  rw [(turn_some hs).2.1, hrec]

/-- **One arrival**: the expected terminating packet closes the loop, every other one is
absorbed. -/
theorem arrive_step (h : Represents (contents chunks) S s.receiver) (ha : a.IsSegment chunks)
    (hmean : NotAliased s a s') (hs : s.arrive a = some s') :
    (a.index = chunks.length ∧ next S = chunks.length ∧ Closes chunks s') ∨
      ¬ (a.index = chunks.length ∧ next S = chunks.length) ∧
        Represents (contents chunks) (absorb 31 S a.index) s'.receiver := by
  have hmean := hmean ha.not_damaged
  obtain ⟨hle, pkt, buf, hdata, hframe⟩ := ha
  obtain ⟨hopen, hreceiver, hsent⟩ := turn_some hs
  have hlen := h.length_output
  rw [segment_pktEncode hdata.sendable buf.1 (length_wire_le hdata.sendable)] at hframe
  simp only [hframe] at hreceiver hsent
  rw [InWindow, hlen, h.expected_eq] at hmean
  by_cases hend : a.index = chunks.length ∧ next S = chunks.length
  · obtain ⟨hindex, hnext⟩ := hend
    have hempty : contents chunks a.index = [] := contents_eq_nil.mpr hindex.ge
    have hexp : s.receiver.expectedSeqnum = UInt8.ofNat a.index := by
      rw [h.expected_eq, hnext, hindex]
    rw [receive_terminating hdata hempty hexp] at hreceiver hsent
    refine Or.inl ⟨hindex, hnext, by rw [hreceiver], ?_, ?_⟩
    · rw [hreceiver, h.output_eq, hnext, flatten_contents chunks (le_refl _)]
    · refine ⟨wire (replyPkt s.receiver.window .ack pkt.timestamp (UInt8.ofNat (a.index + 1))),
        hsent ▸ List.mem_append_right _ (List.mem_replicate.mpr ⟨by simp, rfl⟩), fun junk => ?_⟩
      obtain ⟨packet, hdec, htype, hseq, -⟩ := replyOf_wire junk .ack s.receiver.window
        pkt.timestamp (UInt8.ofNat (a.index + 1)) (by simp)
      exact ⟨packet, hdec, htype, hindex ▸ hseq⟩
  · refine Or.inr ⟨hend, ?_⟩
    by_cases hwin : isExpected (UInt8.ofNat (next S)) (UInt8.ofNat a.index)
    · rcases hmean hwin with ⟨hlo, hhi⟩ | hcopy
      swap
      · obtain ⟨hrec, habsorb⟩ := receive_copy h hdata hcopy a.dangling
        rw [hreceiver, hrec, habsorb]
        exact h
      have hgo : contents chunks a.index ≠ [] ∨
          s.receiver.expectedSeqnum ≠ UInt8.ofNat a.index := by
        rw [Ne, contents_eq_nil, h.expected_eq]
        by_cases hlast : chunks.length ≤ a.index
        · refine Or.inr fun hc => hend ⟨by omega, ?_⟩
          have := ofNat_inj_of_near hc (by omega) (by omega)
          omega
        · exact Or.inl hlast
      rw [hreceiver, receive_data hdata hgo]
      exact (accept_represents h hdata.received pkt.timestamp (by omega) (by omega)).1
    · -- a number outside the window is refused, however far away its packet is
      have hne : UInt8.ofNat a.index ≠ UInt8.ofNat (next S) := fun hc => hwin (by
        rw [hc, isExpected, inWindow_iff, offset_self]
        omega)
      have hout : absorb 31 S a.index = S := if_neg fun hc => hwin (by
        rw [isExpected, inWindow_iff, offset_ofNat_of_le hc.1 (by omega)]
        omega)
      have hseq : (received pkt).seqnum = UInt8.ofNat a.index := hdata.seqnum_eq
      rw [hreceiver, receive_data hdata (Or.inr (h.expected_eq ▸ hne.symm)), hout,
        accept_outOfSequence (by rw [hseq, h.expected_eq]; exact hne)
          (by rw [hseq, h.expected_eq]; exact hwin)]
      exact h

theorem Missed.arrive (h : Missed chunks s) (ha : a.IsSegment chunks ∨ a.Damaged)
    (hmean : NotAliased s a s') (hs : s.arrive a = some s') : Missed chunks s' := by
  obtain ⟨S, hrep, hmem⟩ := h
  rcases ha with ha | hd
  swap
  · exact ⟨S, (arrive_damaged hd hs).symm ▸ hrep, hmem⟩
  rcases arrive_step hrep ha hmean hs with ⟨-, hnext, -⟩ | ⟨-, hrep'⟩
  · exact absurd hmem (hnext ▸ next_notMem S)
  · exact ⟨_, hrep', subset_absorb S a.index hmem⟩

/-- **A terminating packet that came early is missed.** -/
theorem Waiting.arrive (h : Waiting chunks s) (ha : a.IsSegment chunks ∨ a.Damaged)
    (hmean : NotAliased s a s') (hs : s.arrive a = some s') :
    Closes chunks s' ∧ s.receiver.output.length = chunks.length ∨ Waiting chunks s' ∧
      (¬ a.Damaged → a.index = chunks.length → InWindow s a.index →
        s.receiver.output.length ≠ chunks.length ∧ Missed chunks s') := by
  obtain ⟨S, hrep⟩ := h
  have hlen := hrep.length_output
  rcases ha with ha | hd
  swap
  · exact Or.inr ⟨⟨S, (arrive_damaged hd hs).symm ▸ hrep⟩, fun hnd => absurd hd hnd⟩
  rcases arrive_step hrep ha hmean hs with ⟨-, hnext, hcloses⟩ | ⟨hend, hrep'⟩
  · exact Or.inl ⟨hcloses, hlen.trans hnext⟩
  · refine Or.inr ⟨⟨_, hrep'⟩, fun _ hindex hwin => ⟨fun hc => hend ⟨hindex, ?_⟩, _, hrep', ?_⟩⟩
    · omega
    · rw [InWindow, hlen, hindex] at hwin
      rw [hindex]
      exact mem_absorb_self (by omega)

/-- A packet whose number is the expected one is written in the place of the expected packet,
whatever its own place. -/
theorem aliased_written {file : ℕ → List UInt8} {r : Receiver} {j : ℕ} {pkt : Pkt}
    (h : Represents file S r) (hdata : IsData file j pkt) (hfile : file j ≠ [])
    (hnumber : UInt8.ofNat j = UInt8.ofNat (next S)) (dangling : Pkt) :
    (receive dangling r (wire pkt)).1.output[next S]? = some (file j) := by
  have hseq : (received pkt).seqnum = r.expectedSeqnum :=
    hdata.seqnum_eq.trans (hnumber.trans h.expected_eq.symm)
  rw [receive_data hdata (Or.inl hfile), accept_inOrder hseq]
  have hprefix : r.output ++ [file j] <+:
      (drain r.receivingStack.length (r.deliver (received pkt)) pkt.timestamp).1.output := by
    apply drain_inv (P := fun r' => r.output ++ [file j] <+: r'.output)
    · exact fun r' packet rest hr _ => hr.trans (List.prefix_append _ _)
    · rw [← hdata.received.written_eq]
      exact List.prefix_refl _
  obtain ⟨tail, htail⟩ := hprefix
  rw [← htail, ← h.length_output, List.append_assoc, List.getElem?_append_right (le_refl _),
    Nat.sub_self]
  rfl

end Step

/-! ## Runs -/

section Run

variable [Zlib] {chunks : List Chunk} {s s' : Session} {as : List Arrival}

/-- A closed receiver reads nothing more. -/
theorem exec_closed (hc : s.receiver.closed = true)
    (hs : exec Session.arrive s as = some s') : as = [] ∧ s' = s := by
  cases as with
  | nil => exact ⟨rfl, (Option.some.inj hs).symm⟩
  | cons a as =>
    obtain ⟨s1, h1, -⟩ := exec_cons_inv hs
    have hopen := (turn_some h1).1
    rw [hc] at hopen
    exact absurd hopen (by simp)

theorem missed_run (h : Missed chunks s) (ha : ∀ a ∈ as, a.IsSegment chunks ∨ a.Damaged)
    (hmean : Along Session.arrive NotAliased s as) (hs : exec Session.arrive s as = some s') :
    s'.receiver.closed = false := by
  obtain ⟨S, hrep, -⟩ := exec_inv (fun s a s' h hc hs => Missed.arrive h hc.1 hc.2 hs) h
    ((Along.of_forall ha).and hmean) hs
  exact hrep.open_eq

/-- **Waiting or closed**, by induction on the arrivals. -/
theorem waiting_or_closes (h : Waiting chunks s) (ha : ∀ a ∈ as, a.IsSegment chunks ∨ a.Damaged)
    (hmean : Along Session.arrive NotAliased s as) (hs : exec Session.arrive s as = some s') :
    Waiting chunks s' ∨ Closes chunks s' := by
  induction as generalizing s with
  | nil => exact Or.inl (Option.some.inj hs ▸ h)
  | cons a as ih =>
    obtain ⟨s1, h1, h'⟩ := exec_cons_inv hs
    rcases h.arrive (ha a List.mem_cons_self) (hmean s1 h1).1 h1 with ⟨hcloses, -⟩ | ⟨hwait, -⟩
    · rw [(exec_closed hcloses.closed h').2]
      exact Or.inr hcloses
    · exact ih hwait (fun b hb => ha b (List.mem_cons_of_mem a hb)) (hmean s1 h1).2 h'

/-- A receiver that closed never had the terminating packet early. -/
theorem waits_of_closes (h : Waiting chunks s) (ha : ∀ a ∈ as, a.IsSegment chunks ∨ a.Damaged)
    (hmean : Along Session.arrive NotAliased s as) (hs : exec Session.arrive s as = some s')
    (hclosed : s'.receiver.closed = true) :
    Along Session.arrive (TerminatingWaits chunks) s as := by
  induction as generalizing s with
  | nil => trivial
  | cons a as ih =>
    intro s1 h1
    obtain ⟨s1', h1', h'⟩ := exec_cons_inv hs
    obtain rfl : s1' = s1 := Option.some.inj (h1'.symm.trans h1)
    have hrest : ∀ b ∈ as, b.IsSegment chunks ∨ b.Damaged :=
      fun b hb => ha b (List.mem_cons_of_mem a hb)
    rcases h.arrive (ha a List.mem_cons_self) (hmean _ h1).1 h1 with
      ⟨hcloses, hlen⟩ | ⟨hwait, hearly⟩
    · rw [(exec_closed hcloses.closed h').1]
      exact ⟨fun _ _ _ => hlen, trivial⟩
    · refine ⟨fun hnd hindex hwin => ?_, ih hwait hrest (hmean _ h1).2 h'⟩
      have hopen := missed_run (hearly hnd hindex hwin).2 hrest (hmean _ h1).2 h'
      rw [hclosed] at hopen
      exact absurd hopen (by simp)

/-- **When the receiver closes.** A run over segments of a transfer, in any order and number and
damaged or not, in which every packet arrives undamaged at least once inside the window. If all
its arrivals are orderly, the whole file is written, the terminating packet is acknowledged and the
loop left. Among the runs in which no number is taken for another packet's, these are the only
ones. -/
theorem closes_when (hframes : ∀ a ∈ as, a.IsSegment chunks ∨ a.Damaged)
    (hrun : exec Session.arrive Session.start as = some s)
    (harrived : ∀ j ≤ chunks.length, ArrivesInWindow as j) :
    (Along Session.arrive (Orderly chunks) Session.start as → Closes chunks s) ∧
      (Along Session.arrive NotAliased Session.start as → Closes chunks s →
        Along Session.arrive (Orderly chunks) Session.start as) := by
  refine ⟨fun horderly => ?_, fun hmean hcloses => hmean.and
    (waits_of_closes (waiting_start chunks) hframes hmean hrun hcloses.closed)⟩
  have hmean : Along Session.arrive NotAliased Session.start as :=
    horderly.mono fun _ _ _ _ h => h.1
  obtain ⟨pre, a, post, s1, rfl, hindex, hnd, hpre, hwin⟩ := harrived chunks.length (le_refl _)
  obtain ⟨s1', hpre', hpost⟩ := exec_append_inv hrun
  obtain rfl : s1' = s1 := Option.some.inj (hpre'.symm.trans hpre)
  obtain ⟨s2, h2, hrest⟩ := exec_cons_inv hpost
  have hlen := (horderly.at hpre h2).2 hnd hindex (hindex ▸ hwin)
  have hwait : Waiting chunks s1' := by
    rcases waiting_or_closes (waiting_start chunks)
      (fun b hb => hframes b (List.mem_append_left _ hb)) (Along.left hmean) hpre with
      hwait | hcloses
    · exact hwait
    · have hopen := (turn_some h2).1
      rw [hcloses.closed] at hopen
      exact absurd hopen (by simp)
  rcases hwait.arrive (hframes a (by simp)) (hmean.at hpre h2) h2 with
    ⟨hcloses, -⟩ | ⟨-, hearly⟩
  · rw [(exec_closed hcloses.closed hrest).2]
    exact hcloses
  · exact absurd hlen (hearly hnd hindex (hindex ▸ hwin)).1

end Run

/-! ## An orderly run, and one that is not -/

/-- The arrival of packet `index` as the encoder makes it. -/
def arrivalOf [Zlib] (index : ℕ) (pkt : Pkt) : Arrival :=
  { index := index, datagram := (pktEncode pkt cleared.1 528).segment, dangling := pktNew }

/-- The arrival of a packet with data. -/
def dataArrival [Zlib] (index : ℕ) (chunk : Chunk) : Arrival :=
  arrivalOf index (dataPacket (UInt8.ofNat index) chunk)

/-- The arrival of the packet behind the data. -/
def lastArrival [Zlib] (chunks : List Chunk) : Arrival :=
  arrivalOf chunks.length (terminatePacket (UInt8.ofNat chunks.length))

section Arrivals

variable [Zlib] {chunks : List Chunk} {post : List Arrival} {a : Arrival} {i : ℕ} {chunk : Chunk}

theorem isSegment_dataArrival (h : chunks[i]? = some chunk) :
    (dataArrival i chunk).IsSegment chunks := by
  obtain ⟨hlt, -⟩ := List.getElem?_eq_some_iff.mp h
  have hchunk : chunk.1 = contents chunks i := by
    rw [contents, h]
    rfl
  exact ⟨hlt.le, _, cleared, isData_dataPacket hchunk, rfl⟩

theorem isSegment_lastArrival (chunks : List Chunk) : (lastArrival chunks).IsSegment chunks :=
  ⟨le_refl _, _, cleared, isData_terminatePacket (contents_eq_nil.mpr (le_refl _)), rfl⟩

/-- A packet arrives in the window, where the run up to it was evaluated to what is written. -/
theorem arrivesInWindow_of_read (pre : List Arrival) (n : ℕ) (ha : a.IsSegment chunks)
    (hread : (exec Session.arrive Session.start pre).map (fun s => s.receiver.output.length) =
      some n) (hlo : n ≤ a.index) (hhi : a.index ≤ n + 30) :
    ArrivesInWindow (pre ++ a :: post) a.index := by
  obtain ⟨s, hs, rfl⟩ := Option.map_eq_some_iff.mp hread
  exact ⟨pre, a, post, s, rfl, rfl, ha.not_damaged, hs, hlo, hhi⟩

end Arrivals

/-- A file of three packets with a byte each. -/
def threeBytes : List Chunk :=
  [⟨[120], by decide⟩, ⟨[121], by decide⟩, ⟨[122], by decide⟩]

/-- Packet 2 of it with its byte changed on the way. -/
def changedArrival [Zlib] : Arrival :=
  { dataArrival 2 threeBytes[2] with
    datagram := (dataArrival 2 threeBytes[2]).datagram.set 12 0 }

/-- Packet 1 ahead of packet 0, both twice, packet 2 damaged and then whole, and the terminating
packet. -/
def reordered [Zlib] : List Arrival :=
  [dataArrival 1 threeBytes[1], dataArrival 1 threeBytes[1], changedArrival,
    dataArrival 0 threeBytes[0], dataArrival 0 threeBytes[0], dataArrival 2 threeBytes[2],
    lastArrival threeBytes]

open Zlib.Standard in
/-- Data out of order, repeated and damaged: packet 1 is drained from the stack, and the
terminating packet closes the loop. -/
theorem closes_when_reordered :
    ∃ s, exec Session.arrive Session.start reordered = some s ∧
      s.receiver.output = [[120], [121], [122]] ∧ Closes threeBytes s ∧
        Along Session.arrive (Orderly threeBytes) Session.start reordered := by
  have hread : (exec Session.arrive Session.start reordered).map
      (fun s => s.receiver.output) = some [[120], [121], [122]] := by decide +kernel
  have horderly : Along Session.arrive (Orderly threeBytes) Session.start reordered := by
    decide +kernel
  have hdamaged : changedArrival.Damaged := by decide +kernel
  have h0 : (dataArrival 0 threeBytes[0]).IsSegment threeBytes := isSegment_dataArrival rfl
  have h1 : (dataArrival 1 threeBytes[1]).IsSegment threeBytes := isSegment_dataArrival rfl
  have h2 : (dataArrival 2 threeBytes[2]).IsSegment threeBytes := isSegment_dataArrival rfl
  have h3 : (lastArrival threeBytes).IsSegment threeBytes := isSegment_lastArrival threeBytes
  have hframes : ∀ a ∈ reordered, a.IsSegment threeBytes ∨ a.Damaged := by
    intro a ha
    simp only [reordered, List.mem_cons, List.not_mem_nil, or_false] at ha
    rcases ha with rfl | rfl | rfl | rfl | rfl | rfl | rfl
    exacts [Or.inl h1, Or.inl h1, Or.inr hdamaged, Or.inl h0, Or.inl h0, Or.inl h2, Or.inl h3]
  have harrived : ∀ j ≤ threeBytes.length, ArrivesInWindow reordered j := by
    intro j hj
    have hj : j ≤ 3 := hj
    obtain rfl | rfl | rfl | rfl : j = 0 ∨ j = 1 ∨ j = 2 ∨ j = 3 := by omega
    · exact arrivesInWindow_of_read (reordered.take 3) 0 h0 (by decide +kernel)
        (by decide) (by decide)
    · exact arrivesInWindow_of_read [] 0 h1 rfl (by decide) (by decide)
    · exact arrivesInWindow_of_read (reordered.take 5) 2 h2 (by decide +kernel)
        (by decide) (by decide)
    · exact arrivesInWindow_of_read (reordered.take 6) 3 h3 (by decide +kernel)
        (by decide) (by decide)
  obtain ⟨s, hs, hout⟩ := Option.map_eq_some_iff.mp hread
  exact ⟨s, hs, hout, (closes_when hframes hs harrived).1 horderly, horderly⟩

/-- A file of one byte. -/
def oneByte : Chunk := ⟨[120], by decide⟩

/-- Its terminating packet first. -/
def lastFirst [Zlib] : List Arrival :=
  [arrivalOf 1 (terminatePacket 1), arrivalOf 0 (dataPacket 0 oneByte)]

open Zlib.Standard in
/-- **The receiver keeps waiting**: both packets arrived inside the window and were delivered. -/
theorem drained_not_closed :
    (∀ a ∈ lastFirst, a.IsSegment [oneByte]) ∧ (∀ j ≤ 1, ArrivesInWindow lastFirst j) ∧
      ∃ s, exec Session.arrive Session.start lastFirst = some s ∧
        s.receiver.output = [[120], []] ∧ s.receiver.expectedSeqnum = 2 ∧
        ¬ Closes [oneByte] s := by
  have hrun : (exec Session.arrive Session.start lastFirst).map (fun s =>
      (s.receiver.output, s.receiver.expectedSeqnum, s.receiver.closed)) =
        some ([[120], []], 2, false) := by decide +kernel
  obtain ⟨s, hs, hread⟩ := Option.map_eq_some_iff.mp hrun
  simp only [Prod.mk.injEq] at hread
  have hlast : (arrivalOf 1 (terminatePacket 1)).IsSegment [oneByte] :=
    isSegment_lastArrival [oneByte]
  have hdata : (arrivalOf 0 (dataPacket 0 oneByte)).IsSegment [oneByte] :=
    isSegment_dataArrival rfl
  refine ⟨fun a ha => ?_, fun j hj => ?_, s, hs, hread.1, hread.2.1, fun hc => ?_⟩
  · rcases List.mem_cons.mp ha with rfl | ha
    · exact hlast
    · rw [List.mem_singleton.mp ha]
      exact hdata
  · rcases Nat.le_one_iff_eq_zero_or_eq_one.mp hj with rfl | rfl
    · exact arrivesInWindow_of_read [_] 0 hdata (by decide +kernel) (by decide) (by decide)
    · exact arrivesInWindow_of_read [] 0 hlast rfl (by decide) (by decide)
  · have hopen := hc.closed
    rw [hread.2.2] at hopen
    exact absurd hopen (by simp)

end Trtp
