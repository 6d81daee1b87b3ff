import Trtp.Lib.Amortize
import Trtp.Lib.Reach
import Trtp.System.Fifo

/-!
# Transfers over a network that loses nothing

Nothing is lost, repeated, damaged or out of order, and no timer expires (`Clean`). The events still
come in any order: the sender may fill its window before a packet arrives, or wait for each ACK.

* `Pipeline chunks s sent replied`: the invariant, with all that was sent and all the replies so
  far. The frames in flight are what was sent without what was delivered, the replies in flight the
  ACKs without those that were read.
* `once_each`: **each packet goes out once, in order; each is answered with one ACK, the last with
  five; the receiver stores nothing, and nothing is ever asked for again.**
* `clean_completes`: **every such run can go on to the end of the transfer.**
-/

namespace Trtp

open Trtp.Run Trtp.Reassembly

variable {chunks : List Chunk} {s s' : Sys} {sent replied : List (ℕ × List UInt8)} {n k : ℕ}
  {t : Sender}

/-- The steps of a network that loses nothing, with timers that do not expire. -/
def Clean (s : Sys) : Event → Prop
  | .transmit _ | .deliver _ => True
  | .reply i _ => i = 0
  | .idle clock => findExpired clock 0 s.sender.sendingStack = none
  | .damagedReply _ _ _ | .damagedData _ _ | .loseData _ | .dupData _ | .loseReply _
  | .dupReply _ => False

instance (s : Sys) : DecidablePred (Clean s)
  | .transmit _ | .deliver _ => isTrue trivial
  | .reply i _ => inferInstanceAs (Decidable (i = 0))
  | .idle clock => inferInstanceAs (Decidable (findExpired clock 0 s.sender.sendingStack = none))
  | .damagedReply _ _ _ | .damagedData _ _ | .loseData _ | .dupData _ | .loseReply _
  | .dupReply _ => isFalse id

/-! ## The ACKs of a transfer -/

/-- The numbers of the ACKs for the first `d` packets, of which packet `n` ends the file. -/
def acksOf (n d : ℕ) : List ℕ :=
  (List.range d).flatMap fun j => List.replicate (if j = n then 5 else 1) (j + 1)

theorem acksOf_succ (n d : ℕ) :
    acksOf n (d + 1) = acksOf n d ++ List.replicate (if d = n then 5 else 1) (d + 1) := by
  rw [acksOf, List.range_succ, List.flatMap_append, List.flatMap_singleton]
  rfl

/-- In front of the end there is one for each packet. -/
theorem acksOf_eq {n d : ℕ} (h : d ≤ n) : acksOf n d = (List.range d).map (· + 1) := by
  induction d with
  | zero => rfl
  | succ d ih =>
    rw [acksOf_succ, ih (by omega), if_neg (by omega), List.range_succ, List.map_append]
    rfl

theorem le_length_acksOf (n d : ℕ) : d ≤ (acksOf n d).length := by
  induction d with
  | zero => exact Nat.zero_le _
  | succ d ih =>
    rw [acksOf_succ, List.length_append, List.length_replicate]
    split <;> omega

/-- The ACK at a position up to the end is that of the packet with it. -/
theorem getElem?_acksOf {n d i k : ℕ} (hd : d ≤ n + 1) (hi : i ≤ n)
    (h : (acksOf n d)[i]? = some k) : k = i + 1 ∧ i < d := by
  rcases Nat.lt_or_ge n d with hlt | hle
  · obtain rfl : d = n + 1 := by omega
    rw [acksOf_succ, if_pos rfl, acksOf_eq (le_refl n)] at h
    rcases Nat.lt_or_ge i n with hin | hni
    · rw [List.getElem?_append_left (by simpa using hin), List.getElem?_map,
        List.getElem?_range hin] at h
      exact ⟨(Option.some.inj h).symm, by omega⟩
    · obtain rfl : i = n := by omega
      rw [List.getElem?_append_right (by simp), List.length_map, List.length_range, Nat.sub_self,
        List.getElem?_replicate_of_lt (by omega)] at h
      exact ⟨(Option.some.inj h).symm, by omega⟩
  · rw [acksOf_eq hle, List.getElem?_map, Option.map_eq_some_iff] at h
    obtain ⟨j, hj, rfl⟩ := h
    obtain ⟨hlt, rfl⟩ := List.getElem?_eq_some_iff.mp hj
    rw [List.length_range] at hlt
    exact ⟨by rw [List.getElem_range], hlt⟩

/-! ## Lists of frames -/

theorem drop_eq_cons {α : Type} {l rest : List α} {i : ℕ} {x : α} (h : l.drop i = x :: rest) :
    l[i]? = some x ∧ rest = l.drop (i + 1) := by
  constructor
  · rw [← List.head?_drop, h, List.head?_cons]
  · rw [← List.tail_drop, h, List.tail_cons]

theorem fst_of_getElem? {α : Type} {frames : List (ℕ × α)} {i : ℕ} {frame : ℕ × α}
    (h : frames.map Prod.fst = List.range frames.length) (hget : frames[i]? = some frame) :
    frame.1 = i := by
  obtain ⟨hlt, rfl⟩ := List.getElem?_eq_some_iff.mp hget
  have hfst := List.getElem_of_eq h (i := i) (by simpa using hlt)
  rw [List.getElem_map, List.getElem_range] at hfst
  exact hfst

/-! ## A sender that is not asked for anything -/

/-- The sender goes on with packet `k`, of a file of `n` packets. -/
structure OnTrack (n k : ℕ) (t : Sender) : Prop where
  quiet : t.flagged = false
  counted : t.lastpacketsSentCount = 0
  total_eq : t.totalPacketsToSend = Int.bmod (n : ℤ) (2 ^ 32)
  number : t.seqnumToSend = UInt8.ofNat k

theorem OnTrack.congr {pc : Pc} (h : OnTrack n k t) : OnTrack n k { t with pc := pc } :=
  ⟨h.quiet, h.counted, h.total_eq, h.number⟩

/-- With no timer expired, the sender waits on or starts over. -/
theorem wakeUp_clean {clock : ℕ → ℤ} (hnone : findExpired clock 0 t.sendingStack = none) :
    t.receiverWindowSize = 0 ∧ wakeUp clock t = t ∨
      t.receiverWindowSize ≠ 0 ∧ wakeUp clock t = endIteration t false := by
  simp only [wakeUp, checkForRT, hnone, Bool.false_eq_true, if_false]
  by_cases hwin : t.receiverWindowSize = 0
  · exact Or.inl ⟨hwin, if_pos hwin⟩
  · exact Or.inr ⟨hwin, if_neg hwin⟩

/-- The loop goes on without timeouts and with packets left, whatever `process_response` said. -/
theorem OnTrack.goes_on (h : OnTrack n k t) (hne : t.sendingStack ≠ []) (mainBreak : Bool)
    (hlast : mainBreak = true → t.lastSeqnumAcked ≠ UInt8.ofNat n ∧ t.sendingStack.length < 256) :
    endIteration t mainBreak = { t with pc := .top } := by
  have hgo : loopHead t false = { t with pc := .top } := if_pos ⟨List.length_pos_iff.mpr hne, rfl⟩
  have hcount := h.counted
  rw [endIteration, if_neg (by omega)]
  cases mainBreak with
  | false => rw [if_neg (by simp), hgo]
  | true =>
    obtain ⟨hnot, hlen⟩ := hlast rfl
    rw [if_pos ⟨rfl, fun hc => hnot (isTotal_imp (h.total_eq ▸ hc)), hlen⟩, hgo]

/-- No timer is over at the start of time. -/
theorem findExpired_early (i : ℕ) (stack : Stack) : findExpired (fun _ => 0) i stack = none := by
  induction stack generalizing i with
  | nil => rfl
  | cons runner next ih =>
    rw [findExpired]
    split
    · rw [if_neg (by unfold RTlength; omega)]
      exact ih (i + 1)
    · rfl

section Clean

variable [Zlib]

/-- A transmission takes it to the next packet. -/
theorem OnTrack.transmit (h : OnTrack n k t) (now : UInt32) :
    OnTrack n (k + (transmit now t).2.toList.length) (transmit now t).1 ∧
      (transmit now t).1.pc = .wait ∧
      ((transmit now t).2 = none →
        (transmit now t).1.receiverWindowSize = t.receiverWindowSize) := by
  rcases transmit_cases now t with hnone | ⟨pkt, -, -, hsent⟩
  · rw [hnone]
    exact ⟨h.congr, rfl, fun _ => rfl⟩
  · have hadvance : (sendNext now t pkt).1.flagged = false ∧
        (sendNext now t pkt).1.seqnumToSend = incrementSeqnum t.seqnumToSend := by
      unfold sendNext Sender.advance
      simp only
      rw [if_neg (by rw [Sender.flagged]; simpa [Sender.flagged] using h.quiet)]
      exact ⟨h.quiet, rfl⟩
    rw [hsent]
    refine ⟨⟨hadvance.1, ?_, ?_, ?_⟩, rfl, fun hc => absurd hc (by simp)⟩
    · rw [← h.counted]
      exact sendNext_lastpacketsSentCount now t pkt
    · rw [← h.total_eq]
      exact sendNext_totalPacketsToSend now t pkt
    · simp only [hadvance.2, h.number, incrementSeqnum_ofNat, Option.toList_some,
        List.length_singleton]

/-! ## Histories -/

/-- The frames a step writes to the network, with their packets. -/
def Sys.sends (s : Sys) : Event → List (ℕ × List UInt8)
  | .transmit now => (transmit now s.sender).2.toList.map fun datagram => (s.toSend, datagram)
  | _ => []

/-- The receiver's replies to a datagram. -/
def Sys.repliesTo (s : Sys) (dangling : Pkt) (datagram : List UInt8) : List (ℕ × List UInt8) :=
  (receive dangling s.receiver datagram).2.map fun reply =>
    ((receive dangling s.receiver datagram).1.delivered, reply)

/-- The replies a step writes to the network. -/
def Sys.answers (s : Sys) : Event → List (ℕ × List UInt8)
  | .deliver dangling =>
    match s.data with
    | frame :: _ => s.repliesTo dangling frame.2
    | [] => []
  | .damagedData dangling datagram => s.repliesTo dangling datagram
  | _ => []

/-- A state of a transfer without losses, with all that was sent and replied. -/
structure Pipeline (chunks : List Chunk) (s : Sys) (sent replied : List (ℕ × List UInt8)) :
    Prop where
  fifo : Fifo chunks (Finset.range s.receiver.delivered) s
  onTrack : OnTrack (chunks.length + 1) sent.length s.sender
  delivered_le : s.receiver.delivered ≤ sent.length
  sent_once : sent.map Prod.fst = List.range sent.length
  segments : ∀ frame ∈ sent, ∃ pkt, IsData (contents chunks) frame.1 pkt ∧ frame.2 = wire pkt
  data_eq : s.data = sent.drop s.receiver.delivered
  answered : replied.map Prod.fst = acksOf chunks.length s.receiver.delivered
  acks : ∀ frame ∈ replied, IsReply .ack frame.1 frame.2
  replies_eq : s.replies = replied.drop s.acked
  window : s.sender.receiverWindowSize ≠ 0 ∨ s.acked < sent.length
  done : s.sender.pc = .success → s.acked = chunks.length + 1

theorem pipeline_start (chunks : List Chunk) (buf : Buffer) :
    Pipeline chunks (Sys.start chunks buf) [] [] where
  fifo := fifo_start chunks buf
  onTrack := by
    rw [start_sender]
    exact ⟨rfl, rfl, by simp only [Nat.cast_add, Nat.cast_one], rfl⟩
  delivered_le := le_refl _
  sent_once := rfl
  segments := fun _ hf => absurd hf List.not_mem_nil
  data_eq := rfl
  answered := rfl
  acks := fun _ hf => absurd hf List.not_mem_nil
  replies_eq := by rw [List.drop_nil]; rfl
  window := by rw [start_sender]; exact Or.inl (by simp)
  done := by rw [start_sender]; exact fun hc => absurd hc (by simp)

/-- What was sent lies in the window behind the stack, and in the file. -/
theorem Pipeline.sent_le (h : Pipeline chunks s sent replied) :
    s.acked ≤ sent.length ∧ sent.length ≤ s.acked + 31 ∧ sent.length ≤ chunks.length + 1 := by
  have hle := h.fifo.inv.acked_le
  have hdel := h.delivered_le
  rcases Nat.eq_zero_or_pos sent.length with h0 | hpos
  · omega
  have hin : sent.length - 1 ∈ Finset.range s.receiver.delivered ∨
      sent.length - 1 ∈ s.inFlight := by
    rcases Nat.lt_or_ge (sent.length - 1) s.receiver.delivered with hlt | hge
    · exact Or.inl (Finset.mem_range.mpr hlt)
    · refine Or.inr ?_
      rw [Sys.inFlight, h.data_eq, List.map_drop, h.sent_once, List.mem_drop_iff_getElem]
      exact ⟨sent.length - 1 - s.receiver.delivered, by simp; omega, by
        rw [List.getElem_range]; omega⟩
  have hnear := h.fifo.near hin
  have hlt := h.fifo.inv.total_eq ▸ h.fifo.inv.lt_total _ hin
  omega

/-- What `seqnumToSend` names is the next packet. -/
theorem Pipeline.toSend (h : Pipeline chunks s sent replied) : s.toSend = sent.length := by
  obtain ⟨hle, hlt, -⟩ := h.sent_le
  rw [Sys.toSend, h.onTrack.number, offset_ofNat_of_le hle (by omega), Nat.add_sub_cancel' hle]

/-! ## Steps -/

theorem Pipeline.transmit {now : UInt32} (h : Pipeline chunks s sent replied)
    (hs : step s (.transmit now) = some s') :
    Pipeline chunks s' (sent ++ s.sends (.transmit now)) replied := by
  have hfifo := h.fifo.transmit hs
  obtain ⟨-, hacked⟩ := h.fifo.inv.transmit hs
  obtain ⟨htrack, hwait, hwin⟩ := h.onTrack.transmit now
  obtain ⟨-, -, heq⟩ := step_transmit hs
  have hsender : s'.sender = (Trtp.transmit now s.sender).1 := by rw [heq]
  have hreceiver : s'.receiver = s.receiver := by rw [heq]
  have hdata : s'.data = s.data ++ s.sends (.transmit now) := by rw [heq]; rfl
  have hreplies : s'.replies = s.replies := by rw [heq]
  have hlen : (sent ++ s.sends (.transmit now)).length =
      sent.length + (Trtp.transmit now s.sender).2.toList.length := by
    rw [List.length_append, Sys.sends, List.length_map]
  obtain ⟨hle, -, -⟩ := h.sent_le
  have hdel := h.delivered_le
  refine ⟨hreceiver ▸ hfifo, ?_, ?_, ?_, fun frame hf => ?_, ?_, ?_, h.acks, ?_, ?_, ?_⟩
  · rw [hsender, hlen]
    exact htrack
  · rw [hreceiver, hlen]
    omega
  · rw [hlen, List.map_append, h.sent_once, Sys.sends, h.toSend]
    cases (Trtp.transmit now s.sender).2 with
    | none => exact List.append_nil _
    | some datagram => exact List.range_succ.symm
  · rcases List.mem_append.mp hf with hf | hf
    · exact h.segments frame hf
    · exact hfifo.inv.frames frame (hdata ▸ List.mem_append_right _ hf)
  · rw [hdata, hreceiver, h.data_eq, List.drop_append_of_le_length hdel]
  · rw [hreceiver]
    exact h.answered
  · rw [hreplies, hacked]
    exact h.replies_eq
  · rw [hsender, hacked, hlen]
    cases hd : (Trtp.transmit now s.sender).2 with
    | none =>
      rw [hwin hd]
      exact h.window
    | some datagram => exact Or.inr (by simp; omega)
  · rw [hsender, hwait]
    exact fun hc => absurd hc (by simp)

theorem Pipeline.idle {clock : ℕ → ℤ} (h : Pipeline chunks s sent replied)
    (hclean : Clean s (.idle clock)) (hs : step s (.idle clock) = some s') :
    Pipeline chunks s' sent replied := by
  have hfifo := h.fifo.idle hs
  obtain ⟨hwait, rfl⟩ := step_idle hs
  rcases wakeUp_clean hclean with ⟨-, hw⟩ | ⟨-, hw⟩
  · rw [hw]
    exact h
  · have hne := h.fifo.ends.busy (by simp [hwait])
    rw [h.onTrack.goes_on hne _ (by simp)] at hw
    rw [hw] at hfifo ⊢
    exact ⟨hfifo, h.onTrack.congr, h.delivered_le, h.sent_once, h.segments, h.data_eq, h.answered,
      h.acks, h.replies_eq, h.window, fun hc => absurd hc (by simp)⟩

/-- **A packet in order is answered** with one ACK, the terminating one with five. -/
theorem repliesTo_clean (h : Fifo chunks (Finset.range s.receiver.delivered) s) (dangling : Pkt)
    (hopen : s.receiver.closed = false) {frame : ℕ × List UInt8} {rest : List (ℕ × List UInt8)}
    (hd : s.data = frame :: rest) (htag : frame.1 = s.receiver.delivered)
    (hdelivered : (receive dangling s.receiver frame.2).1.delivered = s.receiver.delivered + 1) :
    ∃ reply, IsReply .ack (s.receiver.delivered + 1) reply ∧ s.repliesTo dangling frame.2 =
      List.replicate (if s.receiver.delivered = chunks.length then 5 else 1)
        (s.receiver.delivered + 1, reply) := by
  obtain ⟨pkt, hdata, hwire, hlt, -, -⟩ := h.inv.head hd
  have hrep := h.inv.received.represents hopen
  have hexp := h.inv.received.expected_eq
  rw [htag] at hdata hlt
  rw [h.inv.total_eq] at hlt
  rw [Sys.repliesTo, hdelivered]
  rw [hwire] at hdelivered ⊢
  by_cases hend : s.receiver.delivered = chunks.length
  · refine ⟨_, ⟨s.receiver.window, pkt.timestamp, (Received.window_pos hrep).1,
      (Received.window_pos hrep).2, rfl⟩, ?_⟩
    rw [receive_terminating hdata (contents_eq_nil.mpr hend.ge) hexp, if_pos hend,
      List.map_replicate]
  · have hgo : contents chunks s.receiver.delivered ≠ [] := fun hnil => by
      have := contents_eq_nil.mp hnil
      omega
    rw [receive_data hdata (Or.inl hgo)] at hdelivered ⊢
    rw [if_neg hend]
    obtain ⟨hrep', ⟨hmem, -, -⟩ | ⟨ts, hone⟩⟩ := accept_represents hrep hdata.received
      pkt.timestamp (by rw [next_range]; omega) (by rw [next_range]; omega)
    · exact absurd hmem Finset.notMem_range_self
    · have hexp' := (Received.inLoop hrep').expected_eq
      rw [hdelivered] at hexp'
      rw [hexp'] at hone
      exact ⟨_, ⟨_, ts, (Received.window_pos hrep').1, (Received.window_pos hrep').2, rfl⟩,
        by rw [hone]; rfl⟩

theorem Pipeline.deliver {dangling : Pkt} (h : Pipeline chunks s sent replied)
    (hs : step s (.deliver dangling) = some s') :
    Pipeline chunks s' sent (replied ++ s.answers (.deliver dangling)) ∧
      s'.receiver.delivered = s.receiver.delivered + 1 := by
  obtain ⟨frame, rest, hd, hopen, heq⟩ := step_deliver hs
  obtain ⟨frame', rest', hd', hfifo, -⟩ := h.fifo.deliver hs
  rw [hd, List.cons.injEq] at hd'
  obtain ⟨rfl, rfl⟩ := hd'
  obtain ⟨hget, hrest⟩ := drop_eq_cons (h.data_eq.symm.trans hd)
  have htag : frame.1 = s.receiver.delivered := fst_of_getElem? h.sent_once hget
  rw [htag, absorb_range (by omega)] at hfifo
  have hdelivered : s'.receiver.delivered = s.receiver.delivered + 1 := by
    rw [hfifo.inv.received.delivered_eq, next_range]
  have hsender : s'.sender = s.sender := by rw [heq]; rfl
  have hacked : s'.acked = s.acked := by rw [heq]; rfl
  have hdata : s'.data = rest := by rw [heq]; rfl
  have hanswers : s.answers (.deliver dangling) = s.repliesTo dangling frame.2 := by
    rw [Sys.answers, hd]
  have hreplies : s'.replies = s.replies ++ s.repliesTo dangling frame.2 := by rw [heq]; rfl
  obtain ⟨reply, hack, hall⟩ := repliesTo_clean h.fifo dangling hopen hd htag
    (by rw [← hdelivered, heq]; rfl)
  have hlen := congrArg List.length h.answered
  have hlen' := le_length_acksOf chunks.length s.receiver.delivered
  have hle := h.fifo.inv.acked_le
  rw [List.length_map] at hlen
  rw [hanswers]
  refine ⟨⟨hdelivered ▸ hfifo, hsender ▸ h.onTrack, ?_, h.sent_once, h.segments, ?_, ?_,
    fun f hf => ?_, ?_, ?_, ?_⟩, hdelivered⟩
  · rw [hdelivered]
    exact (List.getElem?_eq_some_iff.mp hget).1
  · rw [hdata, hdelivered, hrest]
  · rw [hdelivered, List.map_append, h.answered, acksOf_succ, hall, List.map_replicate]
  · rcases List.mem_append.mp hf with hf | hf
    · exact h.acks f hf
    · rw [hall] at hf
      rw [List.eq_of_mem_replicate hf]
      exact hack
  · rw [hreplies, hacked, h.replies_eq, List.drop_append_of_le_length (by omega)]
  · rw [hsender, hacked]
    exact h.window
  · rw [hsender, hacked]
    exact h.done

/-- **An ACK that is read** is the next one: it removes one packet, and the loop goes on until the
stack is empty. -/
theorem Pipeline.reply {junk : Buffer} (h : Pipeline chunks s sent replied)
    (hs : step s (.reply 0 junk) = some s') :
    Pipeline chunks s' sent replied ∧ s'.acked = s.acked + 1 := by
  have hfifo := h.fifo.reply hs
  obtain ⟨frame, hframe, hwait, heq⟩ := step_reply hs
  have hne := h.fifo.ends.busy (by simp [hwait])
  have hpos := List.length_pos_iff.mpr hne
  have hsum := h.fifo.length_eq
  have hget : replied[s.acked]? = some frame := by
    rw [h.replies_eq, List.getElem?_drop] at hframe
    exact hframe
  -- its number
  have hdel : s.receiver.delivered ≤ chunks.length + 1 := by
    have := h.delivered_le
    obtain ⟨-, -, hle⟩ := h.sent_le
    omega
  have hk : (acksOf chunks.length s.receiver.delivered)[s.acked]? = some frame.1 := by
    rw [← h.answered, List.getElem?_map, hget]
    rfl
  obtain ⟨hnumber, hlt⟩ := getElem?_acksOf hdel (by omega) hk
  obtain ⟨m, hstep, -⟩ := h.fifo.inv.ack (k := frame.1) (by omega) fun hc => by omega
  have hm := hstep.fresh (by omega)
  obtain rfl : m = 1 := by omega
  obtain ⟨window, ts, hwin, h31, hwire⟩ := h.acks frame (List.mem_of_getElem? hget)
  obtain ⟨t, counter, mainBreak, hresp, ht⟩ :=
    respond_ack s.sender junk ts (UInt8.ofNat frame.1) h31
  -- it is not a repetition
  obtain rfl : t = s.sender.acknowledge window (UInt8.ofNat frame.1) counter := by
    rcases ht with ht | ⟨hsame, -⟩
    · exact ht
    · rw [h.fifo.base.base.base_eq hne] at hsame
      have := ofNat_inj_of_near hsame (by omega) (by omega)
      omega
  obtain ⟨pc, hpc⟩ :=
    endIteration_eq (s.sender.acknowledge window (UInt8.ofNat frame.1) counter) mainBreak
  have hsender : s'.sender =
      { s.sender.acknowledge window (UInt8.ofNat frame.1) counter with pc := pc } := by
    rw [heq, ← hpc, ← hresp, hwire]
  have hstack : s'.sender.sendingStack = s.sender.sendingStack.drop 1 := by
    rw [hsender]
    exact hstep.removed
  have hacked : s'.acked = s.acked + 1 := by
    have hsum' := hfifo.length_eq
    rw [hstack, List.length_drop] at hsum'
    omega
  have htrack : OnTrack (chunks.length + 1) sent.length
      (s.sender.acknowledge window (UInt8.ofNat frame.1) counter) :=
    ⟨h.onTrack.quiet, h.onTrack.counted, h.onTrack.total_eq, h.onTrack.number⟩
  refine ⟨⟨?_, ?_, ?_, h.sent_once, h.segments, ?_, ?_, h.acks, ?_, ?_, fun hdone => ?_⟩, hacked⟩
  · rw [show s'.receiver = s.receiver by rw [heq]]
    exact hfifo
  · rw [hsender]
    exact htrack.congr
  · rw [heq]
    exact h.delivered_le
  · rw [heq]
    exact h.data_eq
  · rw [heq]
    exact h.answered
  · rw [hacked, heq, ← List.tail_drop, ← h.replies_eq, List.eraseIdx_zero]
  · rw [hsender]
    exact Or.inl hwin
  · -- with one packet left, the number is not yet that of the total
    by_contra hlast
    have hge := hfifo.ends.done hdone
    have hsum' := hfifo.length_eq
    have hone : (s.sender.acknowledge window (UInt8.ofNat frame.1) counter).sendingStack.length =
        1 := by
      rw [hsender] at hsum'
      simp only at hsum'
      omega
    have hgo := htrack.goes_on (List.ne_nil_of_length_pos (by omega)) mainBreak
      fun _ => ⟨fun hc => by
        have := ofNat_inj_of_near (a := frame.1) hc (by omega) (by omega)
        omega, by omega⟩
    rw [hsender, ← hpc, hgo] at hdone
    exact absurd hdone (by simp)

/-- **The step**, one case for each event. -/
theorem pipeline_step {e : Event} (h : Pipeline chunks s sent replied) (hclean : Clean s e)
    (hs : step s e = some s') :
    Pipeline chunks s' (sent ++ s.sends e) (replied ++ s.answers e) := by
  cases e with
  | transmit now =>
    rw [show s.answers (.transmit now) = [] from rfl, List.append_nil]
    exact h.transmit hs
  | reply i junk =>
    obtain rfl : i = 0 := hclean
    rw [show s.sends (.reply 0 junk) = [] from rfl, show s.answers (.reply 0 junk) = [] from rfl,
      List.append_nil, List.append_nil]
    exact (h.reply hs).1
  | idle clock =>
    rw [show s.sends (.idle clock) = [] from rfl, show s.answers (.idle clock) = [] from rfl,
      List.append_nil, List.append_nil]
    exact h.idle hclean hs
  | deliver dangling =>
    rw [show s.sends (.deliver dangling) = [] from rfl, List.append_nil]
    exact (h.deliver hs).1
  | _ => exact absurd hclean id

/-! ## Runs -/

/-- A transfer without losses: what went over the network, of a file of `n` packets with payload
and the terminating one. -/
structure OnceEach (chunks : List Chunk) (s : Sys) (sent replied : List (ℕ × List UInt8)) :
    Prop where
  sent_once : sent.map Prod.fst = List.range sent.length
  sent_le : sent.length ≤ chunks.length + 1
  segments : ∀ frame ∈ sent, ∃ pkt, IsData (contents chunks) frame.1 pkt ∧ frame.2 = wire pkt
  replied_once : replied.map Prod.fst = acksOf chunks.length s.receiver.delivered
  acks : ∀ frame ∈ replied, IsReply .ack frame.1 frame.2
  inFlight : s.data = sent.drop s.receiver.delivered ∧ s.replies = replied.drop s.acked
  inOrder : s.acked ≤ s.receiver.delivered ∧ s.receiver.delivered ≤ sent.length
  nothing_stored : s.receiver.receivingStack = []
  nothing_asked : s.sender.flagged = false ∧ s.sender.lastpacketsSentCount = 0
  complete : s.sender.pc = .success → s.acked = chunks.length + 1 ∧
    s.receiver.output.flatten = (chunks.map Subtype.val).flatten

/-- Packets in order are never stored. -/
theorem Pipeline.nothing_stored (h : Pipeline chunks s sent replied) :
    s.receiver.receivingStack = [] := by
  cases h.fifo.inv.received with
  | inLoop hrep =>
    refine List.eq_nil_iff_forall_not_mem.mpr fun node hnode => ?_
    obtain ⟨i, ⟨hi, hlt⟩, -⟩ := hrep.buffers.isPacket hnode
    rw [next_range] at hlt
    exact absurd (Finset.mem_range.mp hi) (by omega)
  | left hclosed hall hexp hout hempty => exact hempty

theorem Pipeline.onceEach (h : Pipeline chunks s sent replied) :
    OnceEach chunks s sent replied where
  sent_once := h.sent_once
  sent_le := h.sent_le.2.2
  segments := h.segments
  replied_once := h.answered
  acks := h.acks
  inFlight := ⟨h.data_eq, h.replies_eq⟩
  inOrder := ⟨h.fifo.inv.acked_le, h.delivered_le⟩
  nothing_stored := h.nothing_stored
  nothing_asked := ⟨h.onTrack.quiet, h.onTrack.counted⟩
  complete := fun hdone => ⟨h.done hdone, h.fifo.transfer.sender_end (Or.inl hdone)⟩

theorem pipeline_exec (chunks : List Chunk) (buf : Buffer) {es : List Event}
    (h : Along step (fun s e _ => Clean s e) (Sys.start chunks buf) es)
    (hs : exec step (Sys.start chunks buf) es = some s) :
    Pipeline chunks s (collect step Sys.sends (Sys.start chunks buf) es)
      (collect step Sys.answers (Sys.start chunks buf) es) :=
  collect_inv (I := Pipeline chunks) (fun _ _ _ _ _ hp hclean hs => pipeline_step hp hclean hs)
    (pipeline_start chunks buf) h hs

/-- **Nothing goes over a network without losses twice**, in every run, in whatever order sender
and receiver take their turns. -/
theorem once_each (chunks : List Chunk) (buf : Buffer) {es : List Event}
    (h : Along step (fun s e _ => Clean s e) (Sys.start chunks buf) es)
    (hs : exec step (Sys.start chunks buf) es = some s) :
    OnceEach chunks s (collect step Sys.sends (Sys.start chunks buf) es)
      (collect step Sys.answers (Sys.start chunks buf) es) :=
  (pipeline_exec chunks buf h hs).onceEach

end Clean

/-- Packet 2 is sent before the ACK of packet 1 is read. -/
def unread : List Event :=
  [.transmit 1, .idle fun _ => 1, .deliver pktNew, .reply 0 cleared, .transmit 2, .deliver pktNew,
    .idle fun _ => 2, .transmit 2]

set_option maxRecDepth 8000 in
open Zlib.Standard in
theorem once_each_unread :
    ∃ s, exec step (Sys.start (fileOf 2) cleared) unread = some s ∧
      OnceEach (fileOf 2) s (collect step Sys.sends (Sys.start (fileOf 2) cleared) unread)
        (collect step Sys.answers (Sys.start (fileOf 2) cleared) unread) := by
  obtain ⟨s, hs⟩ := Option.isSome_iff_exists.mp
    (by decide +kernel : (exec step (Sys.start (fileOf 2) cleared) unread).isSome)
  exact ⟨s, hs, once_each (fileOf 2) cleared (by decide +kernel) hs⟩

/-! ## To the end -/

section Clean

variable [Zlib]

/-- What is left to be sent, delivered and acknowledged. -/
def remaining (chunks : List Chunk) (s : Sys) : ℕ :=
  3 * (chunks.length + 1) - (2 * s.receiver.delivered + s.data.length + s.acked)

/-- Some steps without losses lead to the end, or leave less to be done. -/
def Advances (chunks : List Chunk) (s : Sys) : Prop :=
  ∃ s', Reaches step (fun s e _ => Clean s e) s s' ∧ (s'.sender.pc = .success ∨
    (∃ sent replied, Pipeline chunks s' sent replied) ∧ remaining chunks s' < remaining chunks s)

theorem Pipeline.length_data (h : Pipeline chunks s sent replied) :
    s.receiver.delivered + s.data.length = sent.length := by
  have hle := h.delivered_le
  rw [h.data_eq, List.length_drop]
  omega

/-- A frame in flight is delivered. -/
theorem Pipeline.advances_deliver (h : Pipeline chunks s sent replied) (hne : s.data ≠ []) :
    Advances chunks s := by
  obtain ⟨frame, rest, hd⟩ := List.exists_cons_of_ne_nil hne
  have hlen := h.length_data
  obtain ⟨hle, -, hall⟩ := h.sent_le
  have hpos := List.length_pos_iff.mpr hne
  have hopen : s.receiver.closed = false := by
    cases h.fifo.inv.received with
    | inLoop hrep => exact hrep.open_eq
    | left hclosed hend hexp hout hempty =>
      rw [next_range] at hend
      omega
  have hs : step s (.deliver pktNew) = some (s.turn pktNew frame.2 rest) := by
    rw [step, hd]
    exact if_pos hopen
  obtain ⟨hp, hdelivered⟩ := h.deliver hs
  have hlen' := hp.length_data
  have hacked : (s.turn pktNew frame.2 rest).acked = s.acked := rfl
  have hmore := h.fifo.inv.acked_le
  refine ⟨_, Reaches.single hs trivial, Or.inr ⟨⟨_, _, hp⟩, ?_⟩⟩
  unfold remaining
  rw [hacked]
  omega

/-- An ACK in flight is read. -/
theorem Pipeline.advances_reply (h : Pipeline chunks s sent replied)
    (hwait : s.sender.pc = .wait) (hlt : s.acked < s.receiver.delivered) : Advances chunks s := by
  have hlen := congrArg List.length h.answered
  have hle := le_length_acksOf chunks.length s.receiver.delivered
  rw [List.length_map] at hlen
  obtain ⟨frame, hframe⟩ : ∃ frame, s.replies[0]? = some frame := by
    rw [h.replies_eq, List.getElem?_drop, Nat.add_zero]
    exact ⟨_, List.getElem?_eq_getElem (by omega)⟩
  have hs : step s (.reply 0 cleared) = some { s with
      sender := respond s.sender (some frame.2) cleared
      replies := s.replies.eraseIdx 0 } := by
    rw [step, hframe]
    exact if_pos hwait
  obtain ⟨hp, hacked⟩ := h.reply hs
  have hlen' := h.length_data
  obtain ⟨-, -, hall⟩ := h.sent_le
  refine ⟨_, Reaches.single hs rfl, Or.inr ⟨⟨_, _, hp⟩, ?_⟩⟩
  unfold remaining
  rw [hacked]
  simp only
  omega

/-- The first part of an iteration. -/
theorem Pipeline.turn (h : Pipeline chunks s sent replied) (htop : s.sender.pc = .top) :
    ∃ s', step s (.transmit 1) = some s' ∧
      Pipeline chunks s' (sent ++ s.sends (.transmit 1)) replied ∧ s'.sender.pc = .wait ∧
      s'.acked = s.acked ∧ s'.receiver = s.receiver ∧
      s'.data = s.data ++ s.sends (.transmit 1) := by
  have hs : step s (.transmit 1) = some { s with
      sender := (Trtp.transmit 1 s.sender).1
      data := s.data ++ s.sends (.transmit 1) } := if_pos ⟨htop, by decide⟩
  exact ⟨_, hs, h.transmit hs, (h.onTrack.transmit 1).2.1, (h.fifo.inv.transmit hs).2, rfl, rfl⟩

/-- With everything acknowledged, the next packet is sent. -/
theorem Pipeline.sends_next (h : Pipeline chunks s sent replied) (htop : s.sender.pc = .top)
    (hall : s.acked = sent.length) (now : UInt32) : (s.sends (.transmit now)).length = 1 := by
  have hne := h.fifo.ends.busy (by simp [htop])
  have hsum := h.fifo.length_eq
  have hpos := List.length_pos_iff.mpr hne
  have hget := List.getElem?_eq_getElem hpos
  have hsend := h.fifo.base.base.sends hget (Nat.zero_le _) (fun _ => rfl)
    (by rw [h.onTrack.number, ← hall, (h.fifo.base.base.holds.numbered.getElem? hget),
      Nat.add_zero])
    (Or.inl (h.window.resolve_right (by omega))) now
  rw [Sys.sends, hsend]
  rfl

theorem Pipeline.advances_transmit (h : Pipeline chunks s sent replied)
    (htop : s.sender.pc = .top) (hall : s.acked = sent.length) : Advances chunks s := by
  obtain ⟨s', hs, hp, -, hacked, hreceiver, hdata⟩ := h.turn htop
  have hone := h.sends_next htop hall 1
  have hle := h.fifo.inv.acked_le
  have hlen := h.length_data
  have hmost := hp.sent_le
  rw [List.length_append, hone, hacked] at hmost
  refine ⟨s', Reaches.single hs trivial, Or.inr ⟨⟨_, _, hp⟩, ?_⟩⟩
  unfold remaining
  rw [hacked, hreceiver, hdata, List.length_append, hone]
  omega

/-- **A transfer that runs advances.** -/
theorem Pipeline.advances (h : Pipeline chunks s sent replied) (hrun : s.sender.pc ≠ .success) :
    Advances chunks s := by
  by_cases hdata : s.data = []
  · have hlen := h.length_data
    have hle := h.fifo.inv.acked_le
    rw [hdata, List.length_nil] at hlen
    cases hpc : s.sender.pc with
    | top =>
      rcases Nat.eq_or_lt_of_le hle with heq | hlt
      · exact h.advances_transmit hpc (by omega)
      · -- an ACK is on its way
        obtain ⟨s1, hs, hp, hwait, hacked, hreceiver, hsends⟩ := h.turn hpc
        obtain ⟨s', hreach, hgoal⟩ := hp.advances_reply hwait (by rw [hacked, hreceiver]; exact hlt)
        refine ⟨s', Reaches.head hs trivial hreach, hgoal.imp_right fun hless => ⟨hless.1, ?_⟩⟩
        refine hless.2.trans_le ?_
        unfold remaining
        rw [hacked, hreceiver, hsends, List.length_append]
        omega
    | wait =>
      rcases Nat.eq_or_lt_of_le hle with heq | hlt
      · -- nothing is in flight: the next iteration sends
        have hearly := findExpired_early 0 s.sender.sendingStack
        have hs : step s (.idle fun _ => 0) =
            some { s with sender := wakeUp (fun _ => 0) s.sender } := if_pos hpc
        have hp := h.idle hearly hs
        have hwin := h.window.resolve_right (by omega)
        have hw : wakeUp (fun _ => 0) s.sender = { s.sender with pc := .top } := by
          rcases wakeUp_clean hearly with ⟨h0, -⟩ | ⟨-, hw⟩
          · exact absurd h0 hwin
          · rw [hw]
            exact h.onTrack.goes_on (h.fifo.ends.busy hrun) _ (by simp)
        rw [hw] at hs hp
        obtain ⟨s', hreach, hgoal⟩ := hp.advances_transmit rfl (heq.trans hlen)
        exact ⟨s', Reaches.head hs hearly hreach, hgoal⟩
      · exact h.advances_reply hpc hlt
    | success => exact absurd hpc hrun
    | failure => exact absurd hpc h.fifo.ends.running
  · exact h.advances_deliver hdata

/-- What is left behind a transfer without losses: four of the five last ACKs. -/
theorem Pipeline.completed (h : Pipeline chunks s sent replied) (hdone : s.sender.pc = .success) :
    s.receiver.closed = true ∧ s.receiver.output.flatten = (chunks.map Subtype.val).flatten ∧
      s.data = [] ∧ s.replies.length = 4 := by
  have hacked := h.done hdone
  have hle := h.fifo.inv.acked_le
  have hlen := h.length_data
  obtain ⟨-, -, hall⟩ := h.sent_le
  have hdelivered : s.receiver.delivered = chunks.length + 1 := by omega
  refine ⟨?_, h.fifo.transfer.sender_end (Or.inl hdone),
    List.eq_nil_of_length_eq_zero (by omega), ?_⟩
  · cases hclosed : s.receiver.closed with
    | true => rfl
    | false =>
      have hnext := h.fifo.next_le hclosed
      rw [next_range] at hnext
      omega
  · have hacks := congrArg List.length h.answered
    rw [hdelivered, acksOf_succ, if_pos rfl, acksOf_eq (le_refl _), List.length_map,
      List.length_append, List.length_map, List.length_range, List.length_replicate] at hacks
    rw [h.replies_eq, List.length_drop]
    omega

/-- **Every run without losses can go on to the end**: the whole file is written, every packet sent
once, and four of the five last ACKs are not read. -/
theorem clean_completes (chunks : List Chunk) (buf : Buffer) {es : List Event}
    (h : Along step (fun s e _ => Clean s e) (Sys.start chunks buf) es)
    (hs : exec step (Sys.start chunks buf) es = some s) :
    ∃ s', Reaches step (fun s e _ => Clean s e) s s' ∧ s'.sender.pc = .success ∧
      s'.receiver.closed = true ∧ s'.receiver.output.flatten = (chunks.map Subtype.val).flatten ∧
      s'.data = [] ∧ s'.replies.length = 4 := by
  have hstart := pipeline_exec chunks buf h hs
  obtain ⟨s', hreach, hdone⟩ : ∃ s', Reaches step (fun s e _ => Clean s e) s s' ∧
      s'.sender.pc = .success := by
    refine exists_reaches (I := fun s => ∃ sent replied, Pipeline chunks s sent replied)
      (remaining chunks) ?_ ⟨_, _, hstart⟩
    rintro s ⟨sent, replied, hp⟩
    by_cases hrun : s.sender.pc = .success
    · exact ⟨s, Reaches.refl s, Or.inl hrun⟩
    · exact hp.advances hrun
  obtain ⟨sent, replied, hp⟩ : ∃ sent replied, Pipeline chunks s' sent replied := by
    refine hreach.keeps (I := fun s => ∃ sent replied, Pipeline chunks s sent replied) ?_
      ⟨_, _, hstart⟩
    rintro s e s' ⟨sent, replied, hp⟩ hclean hs
    exact ⟨_, _, pipeline_step hp hclean hs⟩
  exact ⟨s', hreach, hdone, hp.completed hdone⟩

end Clean

set_option maxRecDepth 8000 in
open Zlib.Standard in
theorem clean_completes_unread :
    ∃ s, exec step (Sys.start (fileOf 2) cleared) unread = some s ∧
      ∃ s', Reaches step (fun s e _ => Clean s e) s s' ∧ s'.sender.pc = .success ∧
        s'.receiver.closed = true ∧
        s'.receiver.output.flatten = ((fileOf 2).map Subtype.val).flatten ∧
        s'.data = [] ∧ s'.replies.length = 4 := by
  obtain ⟨s, hs⟩ := Option.isSome_iff_exists.mp
    (by decide +kernel : (exec step (Sys.start (fileOf 2) cleared) unread).isSome)
  exact ⟨s, hs, clean_completes (fileOf 2) cleared (by decide +kernel) hs⟩

end Trtp
