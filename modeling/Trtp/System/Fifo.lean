import Trtp.System.Base
import Trtp.System.Inv

/-!
# The transfer over FIFO channels (`read_write_loop_sender.c`, `read_write_loop_receiver.c`)

With replies read in the order they were sent, no ACK is late: its number is never in front of the
stack. Then `lastSeqnumAcked` stays on the first packet (`SysBase`), the sender is never more than
30 packets ahead of its stack, and the terminating packet only goes out as the last of the stack.

* `Fifo chunks S s`: the invariant; `fifo_step` keeps it, one lemma for each event.
* `transfer_safe`: **what was written is a prefix of the file, and the whole file when either loop
  ends**.
* `windows_agree`: **a packet that was not delivered is taken when it arrives**.
* `terminating_in_order`: **the terminating packet is sent when all the others were delivered**.
-/

namespace Trtp

open Trtp.Run Trtp.Reassembly

/-! ## The end of the sender's loop -/

/-- Where the sender stands, with packets `a`, ..., `n` in its stack: it goes on while there is a
packet, and stops, or counts timeouts of the last packet, when only the last may be there. -/
structure Ends (n a : ℕ) (s : Sender) : Prop where
  busy : s.pc ≠ .success → s.sendingStack ≠ []
  done : s.pc = .success → n ≤ a
  counted : 0 < s.lastpacketsSentCount → n ≤ a
  running : s.pc ≠ .failure

section Ends

variable {n a b : ℕ} {t : Sender}

theorem ends_endIteration {mainBreak : Bool} (hsum : a + t.sendingStack.length = n + 1)
    (hcount : 0 < t.lastpacketsSentCount → n ≤ a)
    (hbreak : mainBreak = true → t.sendingStack.length = 1) :
    Ends n a (endIteration t mainBreak) := by
  rcases endIteration_pc t mainBreak with ⟨hpc, hne⟩ | ⟨hpc, hwhy⟩
  · refine ⟨fun _ => by simpa using hne, fun hc => ?_, by simpa using hcount, by simp [hpc]⟩
    rw [hpc] at hc
    exact absurd hc (by simp)
  · refine ⟨fun hc => absurd hpc hc, fun _ => ?_, by simpa using hcount, by simp [hpc]⟩
    rcases hwhy with h5 | hnil | hmain
    · exact hcount (by omega)
    · rw [hnil, List.length_nil] at hsum
      omega
    · have := hbreak hmain
      omega

theorem Ends.wakeUp (h : Ends n a t) (clock : ℕ → ℤ)
    (hsum : a + t.sendingStack.length = n + 1) : Ends n a (wakeUp clock t) := by
  rcases wakeUp_cases clock t with ⟨runner, -, hw⟩ | hw | hw
  · rw [hw]
    refine ends_endIteration hsum (fun hpos => ?_) (by simp)
    -- the count moves only for the last packet
    simp only [Sender.expire] at hpos
    split at hpos
    · omega
    · exact h.counted hpos
  · rw [hw]
    exact h
  · rw [hw]
    exact ends_endIteration hsum h.counted (by simp)

variable [Zlib]

theorem Ends.transmit (h : Ends n a t) (htop : t.pc = .top) (now : UInt32)
    (hlen : (transmit now t).1.sendingStack.length = t.sendingStack.length) :
    Ends n a (transmit now t).1 := by
  have hne := h.busy (by simp [htop])
  have hpc : (Trtp.transmit now t).1.pc = .wait ∧
      (Trtp.transmit now t).1.lastpacketsSentCount = t.lastpacketsSentCount := by
    rcases transmit_cases now t with hnone | ⟨pkt, -, -, hsent⟩
    · rw [hnone]
      exact ⟨rfl, rfl⟩
    · rw [hsent]
      exact ⟨rfl, sendNext_lastpacketsSentCount now t pkt⟩
  refine ⟨fun _ => ?_, fun hc => ?_, fun hpos => h.counted (hpc.2 ▸ hpos), by simp [hpc.1]⟩
  · rw [← List.length_pos_iff, hlen, List.length_pos_iff]
    exact hne
  · rw [hpc.1] at hc
    exact absurd hc (by simp)

theorem Ends.respond (h : Ends n a t) (hab : a ≤ b) {datagram : List UInt8} {junk : Buffer}
    (hsum : b + (respond t (some datagram) junk).sendingStack.length = n + 1) :
    Ends n b (respond t (some datagram) junk) := by
  rw [respond_some, endIteration_sendingStack] at hsum
  rw [respond_some]
  have hold : 0 < t.lastpacketsSentCount → n ≤ b := fun hpos => (h.counted hpos).trans hab
  rcases processResponse_cases t datagram junk with
    ⟨packet, -, -, hres⟩ | ⟨packet, -, -, hres⟩ | ⟨code, hcode, -, -, hres⟩
  · rw [hres, processAck_eq] at hsum ⊢
    refine ends_endIteration hsum ?_ fun hbreak => ?_
    · obtain ⟨counter, hc | ⟨-, hc⟩⟩ := countAck_eq t packet <;> rw [hc] <;> exact hold
    · by_contra hlen
      rw [if_neg fun hc => hlen hc.2] at hbreak
      exact absurd hbreak (by simp)
  · rw [hres, processNack_eq] at hsum ⊢
    refine ends_endIteration hsum hold fun hbreak => ?_
    by_contra hlen
    rw [if_neg fun hc => hlen hc.2] at hbreak
    exact absurd hbreak (by simp)
  · rw [hres] at hsum ⊢
    exact ends_endIteration hsum hold fun hbreak => absurd (of_decide_eq_true hbreak) hcode

end Ends

/-! ## The invariant -/

variable {chunks : List Chunk} {S : Finset ℕ} {s s' : Sys} {e : Event}

section Fifo

variable [Zlib]

/-- The joint invariant with replies in order. -/
structure Fifo (chunks : List Chunk) (S : Finset ℕ) (s : Sys) : Prop where
  inv : Inv chunks S s
  base : SysBase chunks s
  order : (s.replies.map Prod.fst).Pairwise (· ≤ ·)
  fresh : ∀ frame ∈ s.replies, s.acked ≤ frame.1
  absent : s.receiver.closed = false → chunks.length ∉ S
  ends : Ends chunks.length s.acked s.sender

theorem fifo_start (chunks : List Chunk) (buf : Buffer) :
    Fifo chunks ∅ (Sys.start chunks buf) where
  inv := inv_start chunks buf
  base := sysBase_start chunks buf
  order := List.Pairwise.nil
  fresh := fun frame hf => absurd hf List.not_mem_nil
  absent := fun _ => Finset.notMem_empty _
  ends := by
    have hlen := (readFile_holds chunks).1.length_eq
    rw [start_sender]
    refine ⟨fun _ => ?_, fun hc => absurd hc (by simp), fun hpos => absurd hpos (by simp),
      by simp⟩
    rw [← List.length_pos_iff]
    simp only
    omega

theorem Fifo.length_eq (h : Fifo chunks S s) :
    s.acked + s.sender.sendingStack.length = chunks.length + 1 :=
  h.inv.holds.length_eq.trans h.inv.total_eq

/-- What was sent is at most 30 packets ahead of the stack. -/
theorem Fifo.near (h : Fifo chunks S s) {j : ℕ} (hj : j ∈ S ∨ j ∈ s.inFlight) :
    j ≤ s.acked + 30 := by
  rcases Nat.le_total s.acked j with hle | hle
  · have := h.base.base.sent_le _ (h.inv.sent j hj hle)
    omega
  · omega

/-- The terminating packet was sent only when it was alone in the stack. -/
theorem Fifo.last (h : Fifo chunks S s) (hj : chunks.length ∈ S ∨ chunks.length ∈ s.inFlight) :
    chunks.length ≤ s.acked := by
  have hsum := h.length_eq
  rcases Nat.lt_or_ge chunks.length s.acked with hlt | hle
  · exact hlt.le
  · have := h.base.base.last_first _ (h.inv.sent _ hj hle) (by omega)
    omega

/-- What was delivered is at most 31 packets ahead of the stack. -/
theorem Fifo.delivered_le (h : Fifo chunks S s) : s.receiver.delivered ≤ s.acked + 31 := by
  rw [h.inv.received.delivered_eq]
  rcases Nat.eq_zero_or_pos (next S) with h0 | hpos
  · omega
  · have := h.near (Or.inl (mem_of_lt_next (Nat.pred_lt hpos.ne')))
    rw [Nat.pred_eq_sub_one] at this
    omega

/-- An open receiver still waits for the terminating packet. -/
theorem Fifo.next_le (h : Fifo chunks S s) (hopen : s.receiver.closed = false) :
    next S ≤ chunks.length := Reassembly.next_le (h.absent hopen)

/-! ### Steps of the sender -/

theorem Fifo.transmit {now : UInt32} (h : Fifo chunks S s)
    (hs : step s (.transmit now) = some s') : Fifo chunks S s' := by
  obtain ⟨hinv, hacked⟩ := h.inv.transmit hs
  obtain ⟨hbase, -⟩ := h.base.transmit hs
  obtain ⟨htop, -, rfl⟩ := step_transmit hs
  have hlen := h.length_eq
  have hlen' := hinv.holds.length_eq.trans hinv.total_eq
  rw [hacked] at hlen'
  refine ⟨hinv, hbase, h.order, fun frame hf => hacked.le.trans (h.fresh frame hf), h.absent, ?_⟩
  rw [hacked]
  exact h.ends.transmit htop now (by simp only at hlen'; omega)

/-- In order, every ACK is let through or carries the number of the first packet. -/
theorem Fifo.ackInStep (h : Fifo chunks S s) (hne : s.sender.sendingStack ≠ []) (i : ℕ)
    (junk : Buffer) : AckInStep s (.reply i junk) := by
  intro frame hframe hok htype
  have hmem := List.mem_of_getElem? hframe
  obtain ⟨hk, ⟨window, ts, -, -, hwire⟩ | ⟨window, ts, -, -, hwire⟩⟩ := h.inv.replies frame hmem
  · obtain ⟨packet, hdec, -, hseq, -⟩ := replyOf_wire junk .ack window ts
      (UInt8.ofNat frame.1) (by decide)
    rw [hwire, hdec, hseq]
    have hfresh := h.fresh frame hmem
    obtain ⟨m, hstep, -⟩ := h.inv.ack hk fun hlt => absurd hfresh (by omega)
    have hm := hstep.fresh hfresh
    rcases hstep.accepted with h0 | hacc
    · refine Or.inr ⟨s.sender.sendingStack.head hne, List.head?_eq_some_head hne, ?_⟩
      rw [(h.base.base.first (List.head?_eq_some_head hne)).1, ← hm, h0, Nat.add_zero]
    · exact Or.inl hacc
  · obtain ⟨packet, hdec, hnack, -, -⟩ := replyOf_wire junk .nack window ts
      (UInt8.ofNat frame.1) (by decide)
    rw [hwire, hdec, hnack] at htype
    exact absurd htype (by decide)

theorem Fifo.reply {junk : Buffer} (h : Fifo chunks S s)
    (hs : step s (.reply 0 junk) = some s') : Fifo chunks S s' := by
  obtain ⟨frame, hframe, hwait, heq⟩ := step_reply hs
  have hlate : LateRefused s (.reply 0 junk) := fun frame hf hlt =>
    absurd (h.fresh frame (List.mem_of_getElem? hf)) (by omega)
  obtain ⟨hinv, frame', hframe', hge, hle⟩ := h.inv.reply hlate hs
  obtain ⟨hbase, -⟩ := h.base.reply (h.ackInStep (h.ends.busy (by simp [hwait])) 0 junk) hs
  have hsum := hinv.holds.length_eq.trans hinv.total_eq
  rw [hframe, Option.some.injEq] at hframe'
  subst hframe'
  obtain ⟨rest, hrest⟩ : ∃ rest, s.replies = frame :: rest := by
    cases hr : s.replies with
    | nil => rw [hr] at hframe; exact absurd hframe (by simp)
    | cons f rest => rw [hr] at hframe; exact ⟨rest, by rw [Option.some.inj hframe]⟩
  have hreplies : s'.replies = rest := by rw [heq, hrest]; rfl
  have horder := h.order
  rw [hrest, List.map_cons, List.pairwise_cons] at horder
  refine ⟨hinv, hbase, by rw [hreplies]; exact horder.2, fun f hf => ?_, ?_, ?_⟩
  · rw [hreplies] at hf
    exact (hle (h.fresh frame (List.mem_of_getElem? hframe))).trans
      (horder.1 _ (List.mem_map_of_mem hf))
  · rw [heq]
    exact h.absent
  · rw [heq] at hsum hge ⊢
    exact h.ends.respond hge hsum

theorem Fifo.damagedReply {i : ℕ} {datagram : List UInt8} {junk : Buffer} (h : Fifo chunks S s)
    (hs : step s (.damagedReply i datagram junk) = some s') : Fifo chunks S s' := by
  have hinv := h.inv.damagedReply hs
  obtain ⟨hbase, -⟩ := h.base.damagedReply hs
  obtain ⟨-, hrej, rfl⟩ := step_damagedReply hs
  have hsub := List.eraseIdx_sublist s.replies i
  have hacked : Sys.acked { s with
      sender := respond s.sender (some datagram) junk
      replies := s.replies.eraseIdx i } = s.acked :=
    acked_congr rfl (by rw [respond_rejected hrej, endIteration_sendingStack])
  have hsum := hinv.holds.length_eq.trans hinv.total_eq
  exact ⟨hinv, hbase, h.order.sublist (hsub.map _),
    fun f hf => hacked.le.trans (h.fresh f (hsub.subset hf)), h.absent,
    h.ends.respond hacked.ge hsum⟩

theorem Fifo.idle {clock : ℕ → ℤ} (h : Fifo chunks S s) (hs : step s (.idle clock) = some s') :
    Fifo chunks S s' := by
  have hinv := h.inv.idle hs
  obtain ⟨hbase, -⟩ := h.base.idle hs
  obtain ⟨-, rfl⟩ := step_idle hs
  have hacked : Sys.acked { s with sender := wakeUp clock s.sender } = s.acked :=
    acked_congr rfl (wakeUp_keeps clock s.sender).1
  refine ⟨hinv, hbase, h.order, fun f hf => hacked.le.trans (h.fresh f hf), h.absent, ?_⟩
  rw [hacked]
  exact h.ends.wakeUp clock h.length_eq

/-! ### Steps of the receiver and the network -/

/-- Replies that carry what is delivered now go behind the others. -/
theorem Fifo.order_append (h : Fifo chunks S s) {k : ℕ} (hk : s.receiver.delivered ≤ k)
    (replies : List (List UInt8)) :
    ((s.replies ++ replies.map fun reply => (k, reply)).map Prod.fst).Pairwise (· ≤ ·) := by
  rw [List.map_append, List.pairwise_append]
  refine ⟨h.order, ?_, fun i hi j hj => ?_⟩
  · rw [List.map_map]
    exact List.pairwise_map.mpr (List.pairwise_of_forall fun _ _ => le_refl k)
  · obtain ⟨frame, hf, rfl⟩ := List.mem_map.mp hi
    obtain ⟨p, hp, rfl⟩ := List.mem_map.mp hj
    obtain ⟨reply, -, rfl⟩ := List.mem_map.mp hp
    exact (h.inv.replies frame hf).1.trans hk

/-- **A frame that arrives**: the terminating packet only comes when it is expected. -/
theorem Fifo.deliver {dangling : Pkt} (h : Fifo chunks S s)
    (hs : step s (.deliver dangling) = some s') :
    ∃ frame rest, s.data = frame :: rest ∧ Fifo chunks (absorb 31 S frame.1) s' ∧
      (frame.1 = chunks.length → s'.receiver.closed = true) := by
  obtain ⟨frame, rest, hd, hinv, -⟩ := h.inv.deliver hs
  obtain ⟨hbase, -⟩ := base_step (e := .deliver dangling) h.base trivial hs
  obtain ⟨pkt, hdata, hwire, -, -, -⟩ := h.inv.head hd
  obtain ⟨frame', rest', hd', hopen, heq⟩ := step_deliver hs
  rw [hd, List.cons.injEq] at hd'
  obtain ⟨rfl, rfl⟩ := hd'
  have hmono := next_le_next_absorb (W := 31) S frame.1
  rw [← h.inv.received.delivered_eq, ← hinv.received.delivered_eq] at hmono
  have hclosed : frame.1 = chunks.length → s'.receiver.closed = true := by
    intro hlast
    have hin : chunks.length ∈ s.inFlight := by
      rw [Sys.inFlight, hd, ← hlast]
      exact List.mem_cons_self
    have hge := (h.last (Or.inr hin)).trans h.inv.line.acked_le
    have hnext : next S = frame.1 := hlast ▸ le_antisymm (h.next_le hopen) hge
    have hexp := (h.inv.received.represents hopen).expected_eq
    rw [hnext] at hexp
    rw [heq, Sys.turn, hwire,
      receive_terminating hdata (contents_eq_nil.mpr hlast.ge) hexp]
  refine ⟨frame, rest, hd, ⟨hinv, hbase, ?_, fun f hf => ?_, fun hopen' hm => ?_, ?_⟩, hclosed⟩
  · rw [heq] at hmono ⊢
    exact h.order_append hmono _
  · have hacked : s'.acked = s.acked := by rw [heq]; rfl
    rw [heq] at hf
    rcases List.mem_append.mp hf with hf | hf
    · exact hacked.le.trans (h.fresh f hf)
    · obtain ⟨reply, -, rfl⟩ := List.mem_map.mp hf
      rw [heq] at hmono
      exact hacked.le.trans (h.inv.acked_le.trans hmono)
  · rcases mem_absorb hm with hm | hm
    · exact h.absent hopen hm
    · rw [hclosed hm.symm] at hopen'
      exact absurd hopen' (by simp)
  · rw [heq]
    exact h.ends

theorem Fifo.damagedData {dangling : Pkt} {datagram : List UInt8} (h : Fifo chunks S s)
    (hs : step s (.damagedData dangling datagram) = some s') : Fifo chunks S s' := by
  obtain ⟨hbase, -⟩ := base_step (e := .damagedData dangling datagram) h.base trivial hs
  obtain ⟨frame, rest, reply, hd, -, hinv, -, rfl⟩ := h.inv.damagedData hs
  refine ⟨hinv, hbase, h.order_append (le_refl _) [reply], fun f hf => ?_, h.absent, h.ends⟩
  rcases List.mem_append.mp hf with hf | hf
  · exact h.fresh f hf
  · rw [List.mem_singleton] at hf
    rw [hf]
    exact h.inv.acked_le

/-- The network loses or repeats datagrams. -/
theorem Fifo.network {data replies : List (ℕ × List UInt8)} (h : Fifo chunks S s)
    (hinv : Inv chunks S { s with data := data, replies := replies })
    (hreplies : ∀ frame ∈ replies, frame ∈ s.replies)
    (horder : (replies.map Prod.fst).Pairwise (· ≤ ·)) :
    Fifo chunks S { s with data := data, replies := replies } :=
  ⟨hinv, ⟨h.base.total_eq, h.base.base⟩, horder, fun f hf => h.fresh f (hreplies f hf), h.absent,
    h.ends⟩

theorem Fifo.dupReply (h : Fifo chunks S s) (i : ℕ) :
    Fifo chunks S { s with replies := duplicate s.replies i } := by
  refine h.network (h.inv.loseReplies fun f hf => mem_duplicate.mp hf)
    (fun f hf => mem_duplicate.mp hf) ?_
  have horder := h.order
  rcases duplicate_eq s.replies i with hsame | ⟨pre, frame, post, hreplies, hdup⟩
  · rw [hsame]
    exact horder
  · rw [hreplies, List.map_append, List.map_cons, List.pairwise_append, List.pairwise_cons]
      at horder
    obtain ⟨hpre, ⟨hframe, hpost⟩, hcross⟩ := horder
    rw [hdup, List.map_append, List.map_cons, List.map_cons, List.pairwise_append,
      List.pairwise_cons, List.pairwise_cons]
    refine ⟨hpre, ⟨fun k hk => ?_, hframe, hpost⟩, fun k hk l hl => hcross k hk l ?_⟩
    · rcases List.mem_cons.mp hk with rfl | hk
      · exact le_refl _
      · exact hframe k hk
    · rcases List.mem_cons.mp hl with rfl | hl
      · exact List.mem_cons_self
      · exact hl

/-! ## Runs -/

/-- **The step**, one case for each event. -/
theorem fifo_step (h : Fifo chunks S s) (he : e.InOrder) (hs : step s e = some s') :
    ∃ S', Fifo chunks S' s' := by
  cases e with
  | transmit now => exact ⟨S, h.transmit hs⟩
  | reply i junk =>
    obtain rfl : i = 0 := he
    exact ⟨S, h.reply hs⟩
  | damagedReply i datagram junk => exact ⟨S, h.damagedReply hs⟩
  | idle clock => exact ⟨S, h.idle hs⟩
  | deliver dangling =>
    obtain ⟨frame, -, -, hfifo, -⟩ := h.deliver hs
    exact ⟨_, hfifo⟩
  | damagedData dangling datagram => exact ⟨S, h.damagedData hs⟩
  | loseData i =>
    exact ⟨S, Option.some.inj hs ▸ h.network (h.inv.loseData i) (fun _ hf => hf) h.order⟩
  | dupData i =>
    exact ⟨S, Option.some.inj hs ▸ h.network (h.inv.dupData i) (fun _ hf => hf) h.order⟩
  | loseReply i =>
    have hsub := List.eraseIdx_sublist s.replies i
    exact ⟨S, Option.some.inj hs ▸ h.network (h.inv.loseReplies fun f hf => hsub.subset hf)
      (fun f hf => hsub.subset hf) (h.order.sublist (hsub.map _))⟩
  | dupReply i => exact ⟨S, Option.some.inj hs ▸ h.dupReply i⟩

/-- Every property of the steps that the invariant gives holds along a run in order. -/
theorem fifo_along (chunks : List Chunk) (buf : Buffer) {P : Sys → Event → Sys → Prop}
    (hP : ∀ S s e s', Fifo chunks S s → e.InOrder → step s e = some s' → P s e s')
    {es : List Event} (hes : ∀ e ∈ es, e.InOrder) :
    Along step P (Sys.start chunks buf) es := by
  refine Along.of_inv (I := fun s => ∃ S, Fifo chunks S s) (C := fun _ e _ => e.InOrder) ?_ ?_
    ⟨∅, fifo_start chunks buf⟩ (Along.of_forall hes)
  · rintro s e s' ⟨S, hfifo⟩ he hs
    exact fifo_step hfifo he hs
  · rintro s e s' ⟨S, hfifo⟩ he hs
    exact hP S s e s' hfifo he hs

/-! ## The file -/

/-- A state of the transfer: the stack lacks delivered packets only, what was written are the
packets in front of the expected one, and all of the file when either loop is over. -/
structure Transfer (chunks : List Chunk) (s : Sys) : Prop where
  safe : Safe chunks s
  running : s.sender.pc ≠ .failure
  sender_end : s.sender.pc = .success ∨ s.sender.sendingStack = [] ∨
    5 < s.sender.lastpacketsSentCount →
      s.receiver.output.flatten = (chunks.map Subtype.val).flatten
  receiver_end : s.receiver.closed = true →
    s.receiver.output.flatten = (chunks.map Subtype.val).flatten

theorem Fifo.transfer (h : Fifo chunks S s) : Transfer chunks s := by
  have hsum := h.length_eq
  have hle := h.inv.acked_le
  have hwhole : chunks.length ≤ s.receiver.delivered →
      s.receiver.output.flatten = (chunks.map Subtype.val).flatten := by
    intro hall
    rw [h.inv.received.flatten_output, flatten_contents chunks hall]
  refine ⟨h.inv.safe, h.ends.running, fun hend => hwhole ?_, fun hclosed => ?_⟩
  · rcases hend with hpc | hnil | h5
    · exact (h.ends.done hpc).trans hle
    · rw [hnil, List.length_nil] at hsum
      omega
    · exact (h.ends.counted (by omega)).trans hle
  · cases h.inv.received with
    | inLoop hrep =>
      rw [hrep.open_eq] at hclosed
      exact absurd hclosed (by simp)
    | left hclosed hall hexp hout hempty => rw [hout, flatten_contents chunks (le_refl _)]

/-- **End-to-end safety**, in every reachable state. -/
theorem transfer_safe (chunks : List Chunk) (buf : Buffer) {es : List Event}
    (hes : ∀ e ∈ es, e.InOrder) {s : Sys} (hs : exec step (Sys.start chunks buf) es = some s) :
    Transfer chunks s := by
  have hinv : ∃ S, Fifo chunks S s := by
    refine exec_inv (I := fun s => ∃ S, Fifo chunks S s) (C := fun _ e _ => e.InOrder) ?_
      ⟨∅, fifo_start chunks buf⟩ (Along.of_forall hes) hs
    rintro s e s' ⟨S, hfifo⟩ he hs
    exact fifo_step hfifo he hs
  obtain ⟨S, hfifo⟩ := hinv
  exact hfifo.transfer

end Fifo

set_option maxRecDepth 8000 in
open Zlib.Standard in
/-- A whole transfer, with a frame lost and sent again. -/
theorem transfer_safe_whole :
    ∃ s, exec step (Sys.start (fileOf 1) cleared)
      [.transmit 1, .loseData 0, .idle fun _ => 6, .transmit 6, .dupData 0, .deliver pktNew,
        .reply 0 cleared, .transmit 6, .deliver pktNew, .deliver pktNew, .reply 0 cleared,
        .transmit 6, .reply 0 cleared, .transmit 6, .deliver pktNew, .reply 0 cleared] = some s ∧
      Transfer (fileOf 1) s := by
  obtain ⟨s, hs⟩ := Option.isSome_iff_exists.mp
    (by decide +kernel : (exec step (Sys.start (fileOf 1) cleared)
      [.transmit 1, .loseData 0, .idle fun _ => 6, .transmit 6, .dupData 0, .deliver pktNew,
        .reply 0 cleared, .transmit 6, .deliver pktNew, .deliver pktNew, .reply 0 cleared,
        .transmit 6, .reply 0 cleared, .transmit 6, .deliver pktNew, .reply 0 cleared]).isSome)
  exact ⟨s, hs, transfer_safe (fileOf 1) cleared (by decide) hs⟩

/-! ## The two windows -/

section Windows

variable [Zlib]

/-- The packets of the file with their frames: what is sent and not delivered lies in the
receiver's window, and is delivered or stored when it arrives. -/
def WindowsAgree (chunks : List Chunk) (s : Sys) (e : Event) (s' : Sys) : Prop :=
  match e with
  | .transmit now => ∀ datagram ∈ (transmit now s.sender).2,
    (∃ pkt, IsData (contents chunks) s.toSend pkt ∧ datagram = wire pkt) ∧
      (s.receiver.delivered ≤ s.toSend →
        isExpected s.receiver.expectedSeqnum (UInt8.ofNat s.toSend))
  | .deliver _ => ∀ frame ∈ s.data.head?,
    (∃ pkt, IsData (contents chunks) frame.1 pkt ∧ frame.2 = wire pkt) ∧
      (s.receiver.delivered ≤ frame.1 →
        isExpected s.receiver.expectedSeqnum (UInt8.ofNat frame.1) ∧
        (frame.1 < s'.receiver.delivered ∨
          ∃ node ∈ s'.receiver.receivingStack, IsPacket (contents chunks) frame.1 node.pkt))
  | _ => True

/-- A packet that is not far ahead of the stack is in the receiver's window. -/
theorem Fifo.isExpected (h : Fifo chunks S s) {j : ℕ} (hlo : s.receiver.delivered ≤ j)
    (hhi : j ≤ s.acked + 30) : isExpected s.receiver.expectedSeqnum (UInt8.ofNat j) := by
  have hle := h.inv.acked_le
  rw [Trtp.isExpected, inWindow_iff, h.inv.received.expected_eq,
    offset_ofNat_of_le hlo (by omega)]
  omega

/-- What the sender sends is packet `toSend`, at most 30 packets behind the first of its stack. -/
theorem Fifo.toSend {now : UInt32} {datagram : List UInt8} (h : Fifo chunks S s)
    (hs : step s (.transmit now) = some s')
    (hd : datagram ∈ (Trtp.transmit now s.sender).2) :
    (∃ pkt, IsData (contents chunks) s.toSend pkt ∧ datagram = wire pkt) ∧
      s.toSend ∈ s'.inFlight ∧ s'.acked = s.acked := by
  obtain ⟨hinv, hacked⟩ := h.inv.transmit hs
  obtain ⟨-, -, rfl⟩ := step_transmit hs
  have hmem : (s.toSend, datagram) ∈ s.data ++ (Trtp.transmit now s.sender).2.toList.map
      fun datagram => (s.toSend, datagram) := by
    rw [List.mem_append]
    exact Or.inr (List.mem_map_of_mem (Option.mem_toList.mpr hd))
  exact ⟨hinv.frames _ hmem, List.mem_map_of_mem hmem, hacked⟩

/-- **The two windows agree** at every step of a run. -/
theorem windows_agree (chunks : List Chunk) (buf : Buffer) {es : List Event}
    (hes : ∀ e ∈ es, e.InOrder) :
    Along step (WindowsAgree chunks) (Sys.start chunks buf) es := by
  refine fifo_along chunks buf (fun S s e s' hfifo he hs => ?_) hes
  cases e with
  | transmit now =>
    intro datagram hd
    obtain ⟨hpkt, hin, hacked⟩ := hfifo.toSend hs hd
    refine ⟨hpkt, fun hlo => hfifo.isExpected hlo ?_⟩
    have hnear := (hfifo.transmit hs).near (Or.inr hin)
    omega
  | deliver dangling =>
    intro frame hf
    obtain ⟨frame', rest, hd, hfifo', -⟩ := hfifo.deliver hs
    rw [hd, List.head?_cons, Option.mem_some_iff] at hf
    subst hf
    obtain ⟨pkt, hdata, hwire, -, -, -⟩ := hfifo.inv.head hd
    refine ⟨⟨pkt, hdata, hwire⟩, fun hlo => ?_⟩
    have hin : frame'.1 ∈ s.inFlight := by
      rw [Sys.inFlight, hd]
      exact List.mem_cons_self
    have hnear := hfifo.near (Or.inr hin)
    refine ⟨hfifo.isExpected hlo hnear, ?_⟩
    have hle := hfifo.inv.line.acked_le
    have hmem := mem_absorb_self (S := S) (W := 31) (j := frame'.1) (by omega)
    rw [hfifo'.inv.received.delivered_eq]
    by_cases hlt : frame'.1 < next (absorb 31 S frame'.1)
    · exact Or.inl hlt
    · cases hfifo'.inv.received with
      | inLoop hrep =>
        refine Or.inr (hrep.buffers.hasNode ⟨hmem, lt_of_le_of_ne (not_lt.mp hlt) fun heq => ?_⟩)
        have hmissing := next_notMem (absorb 31 S frame'.1)
        rw [heq] at hmissing
        exact hmissing hmem
      | left hclosed hall hexp hout hempty =>
        have := hfifo'.inv.total_eq ▸ hfifo'.inv.lt_total _ (Or.inl hmem)
        omega
  | _ => trivial

end Windows

/-- Packet 1 is lost behind packet 0, and packet 2 arrives. -/
def lostBefore : List Event :=
  [.transmit 1, .deliver pktNew, .reply 0 cleared, .transmit 1, .idle fun _ => 1, .transmit 1,
    .loseData 0, .deliver pktNew]

set_option maxRecDepth 8000 in
open Zlib.Standard in
/-- Packet 2 arrives in front of packet 1 and is stored. -/
theorem windows_agree_stored :
    ∃ s, exec step (Sys.start (fileOf 2) cleared) lostBefore = some s ∧
      s.receiver.receivingStack.map Node.seqnum = [2] ∧
      Along step (WindowsAgree (fileOf 2)) (Sys.start (fileOf 2) cleared) lostBefore := by
  have hread : (exec step (Sys.start (fileOf 2) cleared) lostBefore).map
      (fun s => s.receiver.receivingStack.map Node.seqnum) = some [2] := by
    decide +kernel
  obtain ⟨s, hs, hend⟩ := Option.map_eq_some_iff.mp hread
  exact ⟨s, hs, hend, windows_agree (fileOf 2) cleared (by decide)⟩

/-! ## The terminating packet -/

section Terminating

variable [Zlib]

/-- A packet without payload is the terminating one. It is sent when all packets with one were
delivered, it closes the receiver when it arrives, and it is never stored. -/
structure TerminatingInOrder (chunks : List Chunk) (s : Sys) (e : Event) (s' : Sys) : Prop where
  sent : ∀ now, e = .transmit now → ∀ datagram ∈ (transmit now s.sender).2,
    ∃ pkt, IsData (contents chunks) s.toSend pkt ∧ datagram = wire pkt ∧
      (pkt.length = 0 → chunks.length ≤ s.receiver.delivered)
  arrived : ∀ dangling, e = .deliver dangling → ∀ frame ∈ s.data.head?,
    ∃ pkt, IsData (contents chunks) frame.1 pkt ∧ frame.2 = wire pkt ∧
      (pkt.length = 0 → s'.receiver.closed = true)
  stored : ∀ node ∈ s'.receiver.receivingStack, node.pkt.length ≠ 0

/-- Packets of the file without payload have its last number. -/
theorem Inv.eq_last (h : Inv chunks S s) {j : ℕ} {pkt : Pkt} (hj : j < s.total)
    (hp : IsData (contents chunks) j pkt) (hlen : pkt.length = 0) : j = chunks.length := by
  have hle := hp.getElem?_nil_iff.mp hlen
  have := h.total_eq
  omega

/-- No stored packet is the terminating one. -/
theorem Fifo.stored (h : Fifo chunks S s) {node : Node}
    (hn : node ∈ s.receiver.receivingStack) : node.pkt.length ≠ 0 := by
  cases h.inv.received with
  | inLoop hrep =>
    obtain ⟨i, ⟨hi, -⟩, hpacket⟩ := hrep.buffers.isPacket hn
    intro hlen
    have hnil := hpacket.length_eq
    rw [hlen, UInt16.toNat_zero, eq_comm, List.length_eq_zero_iff, contents_eq_nil] at hnil
    have hlt := h.inv.lt_total i (Or.inl hi)
    have htotal := h.inv.total_eq
    have hend : i = chunks.length := by omega
    exact h.absent hrep.open_eq (hend ▸ hi)
  | left hclosed hall hexp hout hempty =>
    rw [hempty] at hn
    exact absurd hn List.not_mem_nil

/-- **The terminating packet is held back until it can only arrive in order.** -/
theorem terminating_in_order (chunks : List Chunk) (buf : Buffer) {es : List Event}
    (hes : ∀ e ∈ es, e.InOrder) :
    Along step (TerminatingInOrder chunks) (Sys.start chunks buf) es := by
  refine fifo_along chunks buf (fun S s e s' hfifo he hs => ⟨?_, ?_, ?_⟩) hes
  · rintro now rfl datagram hd
    obtain ⟨⟨pkt, hdata, hwire⟩, hin, hacked⟩ := hfifo.toSend hs hd
    refine ⟨pkt, hdata, hwire, fun hlen => ?_⟩
    have hfifo' := hfifo.transmit hs
    have hlt := hfifo'.inv.lt_total _ (Or.inr hin)
    have hlast := hfifo'.inv.eq_last hlt hdata hlen
    have hge := hfifo'.last (Or.inr (hlast ▸ hin))
    have hle := hfifo.inv.acked_le
    omega
  · rintro dangling rfl frame hf
    obtain ⟨frame', rest, hd, -, hclosed⟩ := hfifo.deliver hs
    rw [hd, List.head?_cons, Option.mem_some_iff] at hf
    subst hf
    obtain ⟨pkt, hdata, hwire, hlt, -, -⟩ := hfifo.inv.head hd
    exact ⟨pkt, hdata, hwire, fun hlen => hclosed (hfifo.inv.eq_last hlt hdata hlen)⟩
  · obtain ⟨S', hfifo'⟩ := fifo_step hfifo he hs
    exact fun node hn => hfifo'.stored hn

end Terminating

/-- The terminating packet is sent twice, the first frame being damaged. -/
def sentAgain : List Event :=
  [.transmit 1, .deliver pktNew, .reply 0 cleared, .transmit 1,
    .damagedData pktNew (List.replicate 12 0), .reply 0 cleared, .transmit 1, .deliver pktNew]

open Zlib.Standard in
/-- The second frame of the terminating packet closes the receiver. -/
theorem terminating_in_order_again :
    ∃ s, exec step (Sys.start (fileOf 0) cleared) sentAgain = some s ∧
      (s.receiver.delivered, s.receiver.closed) = (2, true) ∧
      Along step (TerminatingInOrder (fileOf 0)) (Sys.start (fileOf 0) cleared) sentAgain := by
  have hread : (exec step (Sys.start (fileOf 0) cleared) sentAgain).map
      (fun s => (s.receiver.delivered, s.receiver.closed)) = some (2, true) := by
    decide +kernel
  obtain ⟨s, hs, hend⟩ := Option.map_eq_some_iff.mp hread
  exact ⟨s, hs, hend, terminating_in_order (fileOf 0) cleared (by decide)⟩

end Trtp
