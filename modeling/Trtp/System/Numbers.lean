import Trtp.System.Fifo

/-!
# What the numbers of a transfer say (`read_write_loop_sender.c`, `read_write_loop_receiver.c`)

Packets carry their index modulo 256, and files may have any number of packets. Over FIFO channels
everything that can meet lies within 92 indices: the frames in flight, from 61 packets in front of
the one the receiver expects to 30 behind the first of the sender's stack, and the packets stored.

* `Fifo.near_next`: the interval.
* `unambiguous`: **two frames in flight with one number are of one packet; a frame with the number
  of a stored packet carries its payload; a frame with the expected number is the missing packet;
  and a reply's number is the number of packets that were delivered when it was sent, which is
  not in front of the sender's stack and at most 31 behind it.**
-/

namespace Trtp

open Trtp.Run Trtp.Reassembly

variable {chunks : List Chunk} {S : Finset ℕ} {s : Sys}

section Numbers

variable [Zlib]

/-- The second byte of a segment. -/
theorem number_wire (pkt : Pkt) : (wire pkt)[1]? = some pkt.seqnum := rfl

/-- A frame in flight is near the packet the receiver expects. -/
theorem Fifo.near_next (h : Fifo chunks S s) {j : ℕ} (hj : j ∈ s.inFlight) :
    next S ≤ j + 61 ∧ j ≤ next S + 30 := by
  have hle := h.inv.acked_le
  rw [h.inv.received.delivered_eq] at hle
  have hnear := h.near (Or.inr hj)
  exact ⟨h.inv.line.timely.next_le hj, by omega⟩

/-- The number of a frame is that of its packet. -/
theorem Fifo.number_frame (h : Fifo chunks S s) {f : ℕ × List UInt8} (hf : f ∈ s.data) :
    f.2[1]? = some (UInt8.ofNat f.1) := by
  obtain ⟨pkt, hdata, hwire⟩ := h.inv.frames f hf
  rw [hwire, number_wire, hdata.seqnum_eq]

/-- The number of a reply. -/
theorem Fifo.number_reply (h : Fifo chunks S s) {f : ℕ × List UInt8} (hf : f ∈ s.replies) :
    f.2[1]? = some (UInt8.ofNat f.1) := by
  rcases (h.inv.replies f hf).2 with ⟨window, ts, -, -, hwire⟩ | ⟨window, ts, -, -, hwire⟩
  · rw [hwire, number_wire, replyPkt_seqnum]
  · rw [hwire, number_wire, replyPkt_seqnum]

/-- What a number can be taken for. -/
structure Unambiguous (chunks : List Chunk) (s : Sys) : Prop where
  frames : ∀ f ∈ s.data, ∀ g ∈ s.data, f.2[1]? = g.2[1]? → f.1 = g.1
  stored : ∀ f ∈ s.data, ∀ node ∈ s.receiver.receivingStack, f.2[1]? = some node.pkt.seqnum →
    node.pkt.payload = some (contents chunks f.1)
  expected : ∀ f ∈ s.data, f.2[1]? = some s.receiver.expectedSeqnum → f.1 = s.receiver.delivered
  replies : ∀ f ∈ s.replies, f.2[1]? = some (UInt8.ofNat f.1) ∧ s.acked ≤ f.1 ∧
    f.1 ≤ s.receiver.delivered ∧ f.1 ≤ s.acked + 31

theorem Fifo.numbers (h : Fifo chunks S s) : Unambiguous chunks s := by
  have hin : ∀ f ∈ s.data, f.1 ∈ s.inFlight := fun f hf => List.mem_map_of_mem hf
  refine ⟨fun f hf g hg hnumber => ?_, fun f hf node hnode hnumber => ?_, fun f hf hnumber => ?_,
    fun f hf => ?_⟩
  · have hnearf := h.near_next (hin f hf)
    have hnearg := h.near_next (hin g hg)
    rw [h.number_frame hf, h.number_frame hg, Option.some.injEq] at hnumber
    exact ofNat_inj_of_near hnumber (by omega) (by omega)
  · cases h.inv.received with
    | inLoop hrep =>
      obtain ⟨i, ⟨hi, hlt⟩, hpacket⟩ := hrep.buffers.isPacket hnode
      have hnearf := h.near_next (hin f hf)
      have hwithin := hrep.within i hi
      rw [h.number_frame hf, Option.some.injEq, hpacket.seqnum_eq] at hnumber
      rw [ofNat_inj_of_near hnumber (by omega) (by omega)]
      exact hpacket.payload_eq
    | left hclosed hall hexp hout hempty =>
      rw [hempty] at hnode
      exact absurd hnode List.not_mem_nil
  · have hnearf := h.near_next (hin f hf)
    have hdelivered := h.inv.received.delivered_eq
    rw [h.number_frame hf, Option.some.injEq, h.inv.received.expected_eq] at hnumber
    exact ofNat_inj_of_near hnumber (by omega) (by omega)
  · have hle := (h.inv.replies f hf).1
    have hfar := h.delivered_le
    exact ⟨h.number_reply hf, h.fresh f hf, hle, by omega⟩

/-- **The numbers are unambiguous**, in every reachable state, whatever the length of the file. -/
theorem unambiguous (chunks : List Chunk) (buf : Buffer) {es : List Event}
    (hes : ∀ e ∈ es, e.InOrder) :
    Along step (fun _ _ s' => Unambiguous chunks s') (Sys.start chunks buf) es := by
  refine fifo_along chunks buf (fun S s e s' hfifo he hs => ?_) hes
  obtain ⟨S', hfifo'⟩ := fifo_step hfifo he hs
  exact hfifo'.numbers

end Numbers

/-- Packet 0 is repeated twice on the way, and one of the frames is acknowledged. -/
def twoCopies : List Event :=
  [.transmit 1, .dupData 0, .dupData 0, .deliver pktNew, .reply 0 cleared, .transmit 1]

set_option maxRecDepth 8000 in
open Zlib.Standard in
/-- Two frames of packet 0 in flight, and one of packet 1 behind them. -/
theorem unambiguous_copies :
    ∃ s, exec step (Sys.start (fileOf 2) cleared) twoCopies = some s ∧
      s.data.map Prod.fst = [0, 0, 1] ∧
      Along step (fun _ _ s' => Unambiguous (fileOf 2) s') (Sys.start (fileOf 2) cleared)
        twoCopies := by
  have hread : (exec step (Sys.start (fileOf 2) cleared) twoCopies).map
      (fun s => s.data.map Prod.fst) = some [0, 0, 1] := by
    decide +kernel
  obtain ⟨s, hs, hend⟩ := Option.map_eq_some_iff.mp hread
  exact ⟨s, hs, hend, unambiguous (fileOf 2) cleared (by decide)⟩

end Trtp
