import Trtp.Lib.Run
import Trtp.Sender.Inv

/-!
# Calling `read_write_loop_sender` again (`src/sender.c:132-145`)

`main` calls `read_write_loop_sender` again on the same stack when a `read` failed before
everything was sent, "receiver was probably not launched yet". The stack keeps the removals and the
timestamps of the failed call. The new call counts and numbers as if the stack were a whole file
that was never sent.

* `Main.step`: one part of an iteration of `read_write_loop_sender`, or the next call. Any bytes
  may be read, any `read` may fail, and the clock may show anything.
* `Prepared s`: the relations between the globals and the stack where the main loop starts;
  `prepared_start`: they hold for the first call.
* `resumed_iff`: **they hold for every further call of a run exactly when each failed call left a
  stack with a multiple of 256 packets removed and none sent.**
* `resumed_late`: where the clock is not 0, that takes 256 packets removed. Packet 0 is sent before
  the first `read`, so that no call before is resumed.
* `fails_again`: a call on a stack with a sent packet fails whenever a `read` fails, also at the
  end of the connection; `retry_of_failure`: there is always a further call, `loop` stops at 9.

Premises: those of one call. What `main` does behind the loop is left out.
-/

namespace Trtp

open Trtp.Run

/-! ## The retry loop -/

/-- `main` in its retry loop, with the call of `read_write_loop_sender` in progress. -/
structure Main where
  sender : Sender
  loop : ℕ

/-- What happens next: a part of an iteration, or the next call, with what its `buf` holds. -/
inductive Main.Event where
  | transmit (now : UInt32)
  | read (datagram : Option (List UInt8)) (junk : Buffer)
  | idle (clock : ℕ → ℤ)
  | retry (buf : Buffer)

/-- The next call of `read_write_loop_sender`. -/
def Main.Event.IsRetry : Main.Event → Prop
  | .retry _ => True
  | _ => False

/-- A transmission takes place at a time other than 0. -/
def Main.Event.Timed : Main.Event → Prop
  | .transmit now => now ≠ 0
  | _ => True

/-- The first call, on the packets of a file. -/
def Main.start (chunks : List Chunk) (buf : Buffer) : Main :=
  { sender := (Sender.boot (readFile chunks 0 [])).enter buf.1, loop := 0 }

/-- `loop` behind a failed call. -/
def Main.nextLoop (m : Main) : ℕ := if m.loop < 9 then m.loop + 1 else m.loop

/-- The step of `main`; `none` when the event cannot happen. -/
def Main.step [Zlib] (m : Main) : Main.Event → Option Main
  | .transmit now =>
    if m.sender.pc = .top then some { m with sender := (transmit now m.sender).1 } else none
  | .read datagram junk =>
    if m.sender.pc = .wait then some { m with sender := respond m.sender datagram junk } else none
  | .idle clock =>
    if m.sender.pc = .wait then some { m with sender := wakeUp clock m.sender } else none
  | .retry buf =>
    if m.sender.pc = .failure ∧ m.nextLoop < 10 then
      some { sender := m.sender.enter buf.1, loop := m.nextLoop }
    else none

/-! ## Where a call starts -/

/-- The packets of a stack that were sent. -/
def sentCount (stack : Stack) : ℕ := stack.countP fun node => node.pkt.timestamp ≠ 0

theorem sentCount_eq_zero {stack : Stack} :
    sentCount stack = 0 ↔ ∀ node ∈ stack, node.pkt.timestamp = 0 := by
  simp [sentCount, List.countP_eq_zero]

/-- The globals fit the stack: the first packet is the next one to send and to be acknowledged,
the terminating packet is the last one counted, and the sent packets are counted as sent. -/
structure Prepared (s : Sender) : Prop where
  first : ∃ first ∈ s.sendingStack.head?,
    s.seqnumToSend = first.seqnum ∧ s.lastSeqnumAcked = first.seqnum
  last : ∃ last ∈ s.sendingStack.getLast?, last.pkt.length = 0 ∧
    (last.seqnum.toNat : ℤ) = (s.totalPacketsToSend - 1) % 256
  sent : s.totalPacketsSent = sentCount s.sendingStack

/-- The packets of the file that are gone from the stack. -/
def removed (chunks : List Chunk) (s : Sender) : ℕ := chunks.length + 1 - s.sendingStack.length

/-- What a call that numbers from 0 and counts from 0 can be resumed from. -/
def LikeNew (chunks : List Chunk) (s : Sender) : Prop :=
  256 ∣ removed chunks s ∧ ∀ node ∈ s.sendingStack, node.pkt.timestamp = 0

variable {chunks : List Chunk} {s : Sender} {a : ℕ}

theorem enter_eq (h : s.sendingStack ≠ []) (buf : List UInt8) :
    s.enter buf =
      { s with
        totalPacketsToSend := Int.bmod s.sendingStack.length (2 ^ 32)
        totalPacketsSent := 0
        receiverWindowSize := 1
        lastEncodedSeqnum := 0
        seqnumToSend := 0
        lastSeqnumAcked := 0
        lastSeqnumAckedCounter := 0
        buf := buf
        pc := .top } := by
  unfold Sender.enter loopHead
  rw [if_pos ⟨List.length_pos_of_ne_nil h, rfl⟩]

theorem removed_eq (h : Holds (contents chunks) (chunks.length + 1) a s.sendingStack) :
    removed chunks s = a := by
  have hlen := h.length_eq
  unfold removed
  omega

theorem ofNat_eq_zero_iff : UInt8.ofNat a = 0 ↔ 256 ∣ a := by
  rw [← UInt8.toNat_inj, UInt8.toNat_ofNat', Nat.dvd_iff_mod_eq_zero]
  rfl

/-- The first packet carries the number of the packets removed. -/
theorem exists_first (h : Holds (contents chunks) (chunks.length + 1) a s.sendingStack)
    (hne : s.sendingStack ≠ []) :
    ∃ first, s.sendingStack.head? = some first ∧ first.seqnum = UInt8.ofNat a := by
  refine ⟨s.sendingStack.head hne, List.head?_eq_some_head hne, ?_⟩
  have hget : s.sendingStack[0]? = some (s.sendingStack.head hne) := by
    rw [← List.head?_eq_getElem?, List.head?_eq_some_head hne]
  exact h.numbered.getElem? hget

/-- The last packet is the terminating one. -/
theorem exists_last (h : Holds (contents chunks) (chunks.length + 1) a s.sendingStack)
    (hne : s.sendingStack ≠ []) :
    ∃ last, s.sendingStack.getLast? = some last ∧ last.pkt.length = 0 ∧
      last.seqnum = UInt8.ofNat chunks.length := by
  have hlen := h.length_eq
  have hpos := List.length_pos_of_ne_nil hne
  have hget : s.sendingStack[s.sendingStack.length - 1]? = some (s.sendingStack.getLast hne) := by
    rw [← List.getLast?_eq_getElem?, List.getLast?_eq_some_getLast hne]
  refine ⟨s.sendingStack.getLast hne, List.getLast?_eq_some_getLast hne, ?_, ?_⟩
  · exact (h.data _ _ hget).getElem?_nil_iff.mpr (by omega)
  · rw [h.numbered.getElem? hget]
    congr 1
    omega

/-- **What a further call is prepared for**: the numbers only fit after whole turns, and the counter
only when nothing is counted. -/
theorem prepared_enter_iff (h : Holds (contents chunks) (chunks.length + 1) a s.sendingStack)
    (hne : s.sendingStack ≠ []) (buf : List UInt8) :
    Prepared (s.enter buf) ↔ LikeNew chunks s := by
  obtain ⟨first, hfirst, hnumber⟩ := exists_first h hne
  rw [enter_eq hne, LikeNew, removed_eq h]
  constructor
  · rintro ⟨⟨node, hnode, hnext, -⟩, -, hsent⟩
    simp only [hfirst, Option.mem_some_iff] at hnode
    refine ⟨ofNat_eq_zero_iff.mp ?_, sentCount_eq_zero.mp ?_⟩
    · rw [← hnumber, hnode]
      exact hnext.symm
    · exact Int.natCast_eq_zero.mp hsent.symm
  · rintro ⟨hdvd, hfresh⟩
    obtain ⟨last, hlast, hzero, hend⟩ := exists_last h hne
    refine ⟨⟨first, hfirst, ?_, ?_⟩, ⟨last, hlast, hzero, ?_⟩, ?_⟩
    · rw [hnumber]
      exact (ofNat_eq_zero_iff.mpr hdvd).symm
    · rw [hnumber]
      exact (ofNat_eq_zero_iff.mpr hdvd).symm
    · have hmod := bmod_emod_256 s.sendingStack.length
      have hlen := h.length_eq
      rw [hend, UInt8.toNat_ofNat']
      simp only
      omega
    · exact (Int.natCast_eq_zero.mpr (sentCount_eq_zero.mpr hfresh)).symm

theorem boot_nonempty (chunks : List Chunk) :
    (Sender.boot (readFile chunks 0 [])).sendingStack ≠ [] := by
  have hlen := (readFile_holds chunks).1.length_eq
  exact List.ne_nil_of_length_pos (show 0 < (readFile chunks 0 []).length by omega)

/-- The first call is prepared. -/
theorem prepared_start (chunks : List Chunk) (buf : Buffer) :
    Prepared (Main.start chunks buf).sender := by
  obtain ⟨hholds, hfresh⟩ := readFile_holds chunks
  refine (prepared_enter_iff (a := 0) hholds (boot_nonempty chunks) buf.1).mpr ⟨?_, hfresh⟩
  rw [removed_eq (a := 0) hholds]
  exact dvd_zero _

/-! ## What a part of an iteration does to the stack -/

theorem endIteration_nonempty {mainBreak : Bool} (h : (endIteration s mainBreak).pc ≠ .success) :
    s.sendingStack ≠ [] := by
  rcases endIteration_pc s mainBreak with ⟨-, hne⟩ | ⟨hpc, -⟩
  · exact hne
  · exact absurd hpc h

theorem wakeUp_nonempty {clock : ℕ → ℤ} (hne : s.sendingStack ≠ []) :
    (wakeUp clock s).sendingStack ≠ [] := by
  rw [(wakeUp_keeps clock s).1]
  exact hne

section Parts

variable [Zlib]

/-- A transmission puts its time on a packet, or leaves the stack. -/
theorem Holds.transmit (h : Holds (contents chunks) (chunks.length + 1) a s.sendingStack)
    (now : UInt32) :
    Holds (contents chunks) (chunks.length + 1) a (Trtp.transmit now s).1.sendingStack := by
  rcases transmit_cases now s with hnone | ⟨pkt, -, hget, hsent⟩
  · rw [hnone]
    exact h
  · obtain ⟨-, -, -, hdata⟩ := h.get hget
    have hstamp := isData_stampPkt hdata now
    rw [hsent, sendNext_eq hstamp.sendable]
    simp only [advance_sendingStack]
    exact h.set (isData_stamped hstamp)

/-- What was sent stays sent. -/
theorem SentAt.transmit (h : Holds (contents chunks) (chunks.length + 1) a s.sendingStack)
    {now : UInt32} (hnow : now ≠ 0) {i : ℕ} (hi : SentAt s.sendingStack i) :
    SentAt (Trtp.transmit now s).1.sendingStack i := by
  rcases transmit_cases now s with hnone | ⟨pkt, -, hget, hsent⟩
  · rw [hnone]
    exact hi
  · obtain ⟨-, -, -, -, hsentAt⟩ := sendNext_sent h hnow hget
    rw [hsent]
    exact (hsentAt i).mpr (Or.inr hi)

/-- The first transmission of a call sends the packet with number 0. -/
theorem sentAt_transmit_first (h : Holds (contents chunks) (chunks.length + 1) 0 s.sendingStack)
    (hne : s.sendingStack ≠ []) (hseq : s.seqnumToSend = 0) (hlast : s.lastSeqnumAcked = 0)
    (hwin : s.receiverWindowSize = 1) {now : UInt32} (hnow : now ≠ 0) :
    SentAt (Trtp.transmit now s).1.sendingStack 0 := by
  have hoff : offset (UInt8.ofNat 0) s.seqnumToSend = 0 := by
    rw [hseq]
    rfl
  have hget : stackGetPkt s.sendingStack s.seqnumToSend = some (s.sendingStack.head hne).pkt := by
    rw [stackGetPkt_numbered h.numbered, hoff, ← List.head?_eq_getElem?,
      List.head?_eq_some_head hne]
    rfl
  have hmay : s.MaySend := by
    refine ⟨fun hheld => hheld.2.1 (hseq.trans hlast.symm), ?_, Or.inl ?_⟩
    · rw [hseq, hlast]
      decide
    · rw [hwin]
      decide
  obtain ⟨-, -, -, -, hsentAt⟩ := sendNext_sent h hnow hget
  rw [transmit_of_maySend hmay hget]
  exact (hsentAt 0).mpr (Or.inl hoff.symm)

/-- A `read` removes packets from the front, or nothing, and leaves the counters. -/
theorem respond_drops (h : Holds (contents chunks) (chunks.length + 1) a s.sendingStack)
    (datagram : Option (List UInt8)) (junk : Buffer) :
    ∃ k ≤ s.sendingStack.length,
      (respond s datagram junk).sendingStack = s.sendingStack.drop k ∧
      (respond s datagram junk).totalPacketsSent = s.totalPacketsSent ∧
      (respond s datagram junk).totalPacketsToSend = s.totalPacketsToSend := by
  cases datagram with
  | none =>
    refine ⟨0, Nat.zero_le _, ?_⟩
    unfold respond processResponse
    by_cases htotal : s.totalPacketsToSend = s.totalPacketsSent
    · simp [htotal]
    · simp [htotal]
  | some datagram =>
    rw [respond_some, endIteration_sendingStack, endIteration_totalPacketsSent,
      endIteration_totalPacketsToSend]
    rcases processResponse_cases s datagram junk with
      ⟨packet, -, -, hres⟩ | ⟨packet, -, -, hres⟩ | ⟨code, -, -, -, hres⟩
    · obtain ⟨k, hk, hdrop, -⟩ := h.removeAcked s.totalPacketsToSend packet.seqnum
      rw [hres, processAck_eq]
      obtain ⟨counter, hc | ⟨-, hc⟩⟩ := countAck_eq s packet
      · rw [hc]
        exact ⟨k, hk, hdrop, rfl, rfl⟩
      · rw [hc]
        exact ⟨k, hk, hdrop, rfl, rfl⟩
    · rw [hres, processNack_eq]
      exact ⟨0, Nat.zero_le _, rfl, rfl, rfl⟩
    · rw [hres]
      exact ⟨0, Nat.zero_le _, rfl, rfl, rfl⟩

theorem respond_nonempty {datagram : Option (List UInt8)} {junk : Buffer}
    (hne : s.sendingStack ≠ []) (h : (respond s datagram junk).pc ≠ .success) :
    (respond s datagram junk).sendingStack ≠ [] := by
  cases datagram with
  | none =>
    unfold respond processResponse at h ⊢
    by_cases htotal : s.totalPacketsToSend = s.totalPacketsSent
    · simpa [htotal] using hne
    · simpa [htotal] using hne
  | some datagram =>
    rw [respond_some] at h ⊢
    rw [endIteration_sendingStack]
    exact endIteration_nonempty h

end Parts

/-! ## Runs -/

/-- What every state of a run keeps: the stack is the end of the file, a call in progress has a
packet, and `loop` stays below 10. -/
structure Calls (chunks : List Chunk) (m : Main) : Prop where
  holds : ∃ a, Holds (contents chunks) (chunks.length + 1) a m.sender.sendingStack
  nonempty : m.sender.pc ≠ .success → m.sender.sendingStack ≠ []
  loop_le : m.loop ≤ 9

theorem nextLoop_le {m : Main} (h : m.loop ≤ 9) : m.nextLoop ≤ 9 := by
  unfold Main.nextLoop
  split <;> omega

theorem calls_start (chunks : List Chunk) (buf : Buffer) :
    Calls chunks (Main.start chunks buf) := by
  unfold Main.start
  rw [enter_eq (boot_nonempty chunks)]
  exact ⟨⟨0, (readFile_holds chunks).1⟩, fun _ => boot_nonempty chunks, Nat.zero_le _⟩

section Runs

variable [Zlib] {m m' : Main} {e : Main.Event}

/-- What a step is. -/
theorem Main.step_cases (h : m.step e = some m') :
    (∃ now, e = .transmit now ∧ m.sender.pc = .top ∧
      m' = { m with sender := (Trtp.transmit now m.sender).1 }) ∨
    (∃ datagram junk, e = .read datagram junk ∧ m.sender.pc = .wait ∧
      m' = { m with sender := respond m.sender datagram junk }) ∨
    (∃ clock, e = .idle clock ∧ m.sender.pc = .wait ∧
      m' = { m with sender := wakeUp clock m.sender }) ∨
    (∃ buf, e = .retry buf ∧ m.sender.pc = .failure ∧ m.nextLoop < 10 ∧
      m' = { sender := m.sender.enter buf.1, loop := m.nextLoop }) := by
  cases e with
  | transmit now =>
    obtain ⟨hpc, heq⟩ := Option.ite_none_right_eq_some.mp h
    exact Or.inl ⟨now, rfl, hpc, (Option.some.inj heq).symm⟩
  | read datagram junk =>
    obtain ⟨hpc, heq⟩ := Option.ite_none_right_eq_some.mp h
    exact Or.inr (Or.inl ⟨datagram, junk, rfl, hpc, (Option.some.inj heq).symm⟩)
  | idle clock =>
    obtain ⟨hpc, heq⟩ := Option.ite_none_right_eq_some.mp h
    exact Or.inr (Or.inr (Or.inl ⟨clock, rfl, hpc, (Option.some.inj heq).symm⟩))
  | retry buf =>
    obtain ⟨⟨hpc, hloop⟩, heq⟩ := Option.ite_none_right_eq_some.mp h
    exact Or.inr (Or.inr (Or.inr ⟨buf, rfl, hpc, hloop, (Option.some.inj heq).symm⟩))

theorem Main.step_of_isRetry (hs : m.step e = some m') (he : e.IsRetry) :
    ∃ buf : Buffer, m.sender.pc = .failure ∧
      m' = { sender := m.sender.enter buf.1, loop := m.nextLoop } := by
  rcases Main.step_cases hs with ⟨now, rfl, -⟩ | ⟨datagram, junk, rfl, -⟩ | ⟨clock, rfl, -⟩ |
    ⟨buf, -, hpc, -, heq⟩
  · exact he.elim
  · exact he.elim
  · exact he.elim
  · exact ⟨buf, hpc, heq⟩

/-- **The step**, one case for each event. -/
theorem Calls.step (h : Calls chunks m) (hs : m.step e = some m') : Calls chunks m' := by
  obtain ⟨a, hholds⟩ := h.holds
  have hpos : ∀ pc, m.sender.pc = pc → pc ≠ .success → m.sender.sendingStack ≠ [] :=
    fun pc hpc hne => h.nonempty (hpc ▸ hne)
  rcases Main.step_cases hs with ⟨now, -, hpc, rfl⟩ | ⟨datagram, junk, -, hpc, rfl⟩ |
    ⟨clock, -, hpc, rfl⟩ | ⟨buf, -, hpc, -, rfl⟩
  · have hsame := hholds.transmit now
    refine ⟨⟨a, hsame⟩, fun _ => ?_, h.loop_le⟩
    have hlen := hholds.length_eq
    have hlen' := hsame.length_eq
    have hlt := List.length_pos_of_ne_nil (hpos _ hpc (by decide))
    have hlt' : 0 < (Trtp.transmit now m.sender).1.sendingStack.length := by omega
    exact List.ne_nil_of_length_pos hlt'
  · obtain ⟨k, hk, hdrop, -⟩ := respond_drops hholds datagram junk
    refine ⟨⟨a + k, ?_⟩, fun hne => ?_, h.loop_le⟩
    · simp only [hdrop]
      exact hholds.drop hk
    · exact respond_nonempty (hpos _ hpc (by decide)) hne
  · refine ⟨⟨a, ?_⟩, fun _ => ?_, h.loop_le⟩
    · simp only [(wakeUp_keeps clock m.sender).1]
      exact hholds
    · exact wakeUp_nonempty (hpos _ hpc (by decide))
  · have hne := hpos _ hpc (by decide)
    rw [enter_eq hne]
    exact ⟨⟨a, hholds⟩, fun _ => hne, nextLoop_le h.loop_le⟩

/-- What a call starts from is what the failed one left. -/
theorem Calls.prepared_iff (h : Calls chunks m) (hs : m.step e = some m') (he : e.IsRetry) :
    Prepared m'.sender ↔ LikeNew chunks m.sender := by
  obtain ⟨a, hholds⟩ := h.holds
  obtain ⟨buf, hpc, rfl⟩ := Main.step_of_isRetry hs he
  exact prepared_enter_iff hholds (h.nonempty (by rw [hpc]; decide)) buf.1

theorem calls_exec (chunks : List Chunk) (buf : Buffer) {es : List Main.Event}
    (hrun : exec Main.step (Main.start chunks buf) es = some m) : Calls chunks m :=
  exec_inv (C := fun _ _ _ => True) (fun _ _ _ h _ hs => h.step hs) (calls_start chunks buf)
    (Along.of_forall (Q := fun _ => True) fun _ _ => trivial) hrun

/-- **There is always a further call**: `loop` is only raised below 9. -/
theorem retry_of_failure (chunks : List Chunk) (buf : Buffer) {es : List Main.Event}
    (hrun : exec Main.step (Main.start chunks buf) es = some m) (hpc : m.sender.pc = .failure)
    (buf' : Buffer) : ∃ m', m.step (.retry buf') = some m' := by
  have hle := nextLoop_le (calls_exec chunks buf hrun).loop_le
  exact ⟨_, if_pos ⟨hpc, by omega⟩⟩

/-- **A failed call is resumed** exactly when it left a stack with a multiple of 256 packets removed
and none sent. -/
theorem resumed_iff (chunks : List Chunk) (buf : Buffer) (es : List Main.Event) :
    Along Main.step (fun _ e m' => e.IsRetry → Prepared m'.sender) (Main.start chunks buf) es ↔
      Along Main.step (fun m e _ => e.IsRetry → LikeNew chunks m.sender)
        (Main.start chunks buf) es := by
  constructor
  · exact Along.of_inv (fun _ _ _ h _ hs => h.step hs)
      (fun _ _ _ h hC hs he => (h.prepared_iff hs he).mp (hC he)) (calls_start chunks buf)
  · exact Along.of_inv (fun _ _ _ h _ hs => h.step hs)
      (fun _ _ _ h hC hs he => (h.prepared_iff hs he).mpr (hC he)) (calls_start chunks buf)

end Runs

section OneByte

open Zlib.Standard

/-- A file of one byte. -/
def byteFile : List Chunk := [⟨[33], by decide⟩]

set_option maxRecDepth 8000 in
/-- **The receiver was not launched yet**: the first `read` fails, packet 0 was sent, and the next
call counts 0 packets as sent. -/
theorem not_resumed : ¬ Along Main.step (fun _ e m' => e.IsRetry → Prepared m'.sender)
    (Main.start byteFile cleared) ([.transmit 1, .read none cleared] ++ [.retry cleared]) := by
  intro h
  have hrun : ((exec Main.step (Main.start byteFile cleared)
      [.transmit 1, .read none cleared]).bind fun m =>
        (m.step (.retry cleared)).map fun m' =>
          (m'.sender.totalPacketsSent, sentCount m'.sender.sendingStack)) = some (0, 1) := by
    decide +kernel
  obtain ⟨m, m', hprep, hread⟩ := h.at_of_read hrun
  obtain ⟨htotal, hsent⟩ := Prod.ext_iff.mp hread
  have hcount := (hprep trivial).sent
  rw [show m'.sender.totalPacketsSent = 0 from htotal,
    show sentCount m'.sender.sendingStack = 1 from hsent] at hcount
  exact absurd hcount (by decide)

end OneByte

/-! ## Packet 0 -/

section PacketZero

variable {m m' : Main} {e : Main.Event}

/-- While nothing is removed, packet 0 was sent, or the first call is still in front of it. -/
structure ZeroSent (chunks : List Chunk) (m : Main) : Prop extends Calls chunks m where
  zero : m.sender.sendingStack.length = chunks.length + 1 →
    SentAt m.sender.sendingStack 0 ∨ m.sender.pc = .top ∧ m.sender.seqnumToSend = 0 ∧
      m.sender.lastSeqnumAcked = 0 ∧ m.sender.receiverWindowSize = 1

theorem zeroSent_start (chunks : List Chunk) (buf : Buffer) :
    ZeroSent chunks (Main.start chunks buf) := by
  refine ⟨calls_start chunks buf, fun _ => Or.inr ?_⟩
  unfold Main.start
  rw [enter_eq (boot_nonempty chunks)]
  exact ⟨rfl, rfl, rfl, rfl⟩

theorem ZeroSent.sentAt (h : ZeroSent chunks m) (hpc : m.sender.pc ≠ .top)
    (hlen : m.sender.sendingStack.length = chunks.length + 1) :
    SentAt m.sender.sendingStack 0 :=
  (h.zero hlen).resolve_right fun hc => hpc hc.1

variable [Zlib]

theorem ZeroSent.step (h : ZeroSent chunks m) (ht : e.Timed) (hs : m.step e = some m') :
    ZeroSent chunks m' := by
  refine ⟨h.toCalls.step hs, fun hlen' => ?_⟩
  obtain ⟨a, hholds⟩ := h.holds
  have hsize := hholds.length_eq
  rcases Main.step_cases hs with ⟨now, rfl, hpc, rfl⟩ | ⟨datagram, junk, rfl, hpc, rfl⟩ |
    ⟨clock, rfl, hpc, rfl⟩ | ⟨buf, rfl, hpc, -, rfl⟩
  · have hsame := (hholds.transmit now).length_eq
    have hlen : m.sender.sendingStack.length = chunks.length + 1 := by
      simp only at hlen'
      omega
    refine Or.inl ?_
    rcases h.zero hlen with hsent | ⟨-, hseq, hlast, hwin⟩
    · exact hsent.transmit hholds ht
    · obtain rfl : a = 0 := by omega
      exact sentAt_transmit_first hholds (h.nonempty (by rw [hpc]; decide)) hseq hlast hwin ht
  · obtain ⟨k, hk, hdrop, -⟩ := respond_drops hholds datagram junk
    simp only [hdrop, List.length_drop] at hlen'
    obtain rfl : k = 0 := by omega
    simp only [hdrop]
    exact Or.inl (h.sentAt (by rw [hpc]; decide) hlen')
  · simp only [(wakeUp_keeps clock m.sender).1] at hlen' ⊢
    exact Or.inl (h.sentAt (by rw [hpc]; decide) hlen')
  · have hne := h.nonempty (by rw [hpc]; decide)
    rw [enter_eq hne] at hlen' ⊢
    exact Or.inl (h.sentAt (by rw [hpc]; decide) hlen')

/-- **No call is resumed before 256 packets were removed**, where the clock is not 0. -/
theorem resumed_late (chunks : List Chunk) (buf : Buffer) (es : List Main.Event)
    (h : ∀ e ∈ es, e.Timed) :
    Along Main.step
      (fun m e m' => e.IsRetry → Prepared m'.sender → 256 ≤ removed chunks m.sender)
      (Main.start chunks buf) es := by
  refine Along.of_inv (C := fun _ e _ => e.Timed) (fun _ _ _ h ht hs => h.step ht hs) ?_
    (zeroSent_start chunks buf) (Along.of_forall h)
  intro m e m' hzero _ hs he hprep
  obtain ⟨hdvd, hfresh⟩ := (hzero.prepared_iff hs he).mp hprep
  obtain ⟨-, hpc, -⟩ := Main.step_of_isRetry hs he
  refine Nat.le_of_dvd (Nat.pos_of_ne_zero fun hnone => ?_) hdvd
  obtain ⟨a, hholds⟩ := hzero.holds
  have hlen := hholds.length_eq
  rw [removed_eq hholds] at hnone
  exact not_sentAt_of_fresh hfresh 0 (hzero.sentAt (by rw [hpc]; decide) (by omega))

end PacketZero

/-! ## The count -/

/-- The packets of a stack that were not sent. -/
def unsentCount (stack : Stack) : ℕ := stack.countP fun node => node.pkt.timestamp = 0

theorem sentCount_add_unsentCount (stack : Stack) :
    sentCount stack + unsentCount stack = stack.length := by
  have hnot : (fun node : Node => decide ¬ decide (node.pkt.timestamp = 0) = true) =
      fun node => decide (node.pkt.timestamp ≠ 0) := by
    funext node
    simp
  rw [List.length_eq_countP_add_countP (fun node : Node => decide (node.pkt.timestamp = 0)),
    hnot, Nat.add_comm]
  rfl

/-- A packet sent for the first time is one unsent packet less. -/
theorem unsentCount_set {stack : Stack} {seqnum : UInt8} {pkt old : Pkt}
    (hget : stackGetPkt stack seqnum = some old) (hts : pkt.timestamp ≠ 0) :
    unsentCount (stackSetPkt stack seqnum pkt) + (if old.timestamp = 0 then 1 else 0) =
      unsentCount stack := by
  unfold unsentCount
  induction stack with
  | nil => exact absurd hget (by simp [stackGetPkt])
  | cons node next ih =>
    rw [stackGetPkt] at hget
    rw [stackSetPkt]
    by_cases hseq : node.seqnum = seqnum
    · rw [if_neg (not_not.mpr hseq), Option.some.injEq] at hget
      subst hget
      rw [if_neg (not_not.mpr hseq), List.countP_cons, List.countP_cons]
      simp [hts]
    · rw [if_pos hseq] at hget
      rw [if_pos hseq, List.countP_cons, List.countP_cons, ← ih hget]
      omega

theorem unsentCount_drop_le (stack : Stack) (k : ℕ) :
    unsentCount (stack.drop k) ≤ unsentCount stack :=
  (List.drop_sublist k stack).countP_le

/-- More packets are counted in `totalPacketsToSend` than can ever be counted as sent. -/
def Lags (s : Sender) : Prop :=
  s.totalPacketsSent + unsentCount s.sendingStack < s.totalPacketsToSend

/-- A call on a stack with a sent packet starts behind. -/
theorem lags_enter (h : sentCount s.sendingStack ≠ 0) (hsize : s.sendingStack.length < 2 ^ 31)
    (buf : List UInt8) : Lags (s.enter buf) := by
  have hsum := sentCount_add_unsentCount s.sendingStack
  have hne : s.sendingStack ≠ [] := List.ne_nil_of_length_pos (by omega)
  have htotal : Int.bmod s.sendingStack.length (2 ^ 32) = s.sendingStack.length := by
    apply Int.bmod_eq_of_le <;> omega
  rw [enter_eq hne, Lags]
  simp only
  omega

section Counts

variable [Zlib]

/-- A transmission counts one packet more, or leaves as many unsent. -/
theorem transmit_counts (h : Holds (contents chunks) (chunks.length + 1) a s.sendingStack)
    {now : UInt32} (hnow : now ≠ 0) :
    (Trtp.transmit now s).1.totalPacketsSent +
        unsentCount (Trtp.transmit now s).1.sendingStack =
      s.totalPacketsSent + unsentCount s.sendingStack ∧
    (Trtp.transmit now s).1.totalPacketsToSend = s.totalPacketsToSend := by
  rcases transmit_cases now s with hnone | ⟨pkt, -, hget, hsent⟩
  · rw [hnone]
    exact ⟨rfl, rfl⟩
  · obtain ⟨-, -, -, hdata⟩ := h.get hget
    have hts : (stamped (stampPkt now pkt)).timestamp ≠ 0 := hnow
    have hset := unsentCount_set hget hts
    rw [hsent, sendNext_eq (isData_stampPkt hdata now).sendable]
    simp only [advance_sendingStack, advance_totalPacketsSent, advance_totalPacketsToSend]
    refine ⟨?_, trivial⟩
    split at hset
    · rename_i hnew
      rw [if_pos hnew]
      omega
    · rename_i hold
      rw [if_neg hold]
      omega

variable {m m' : Main} {e : Main.Event}

/-- Within a call the count does not catch up. -/
theorem Lags.step (h : Lags m.sender) (hcalls : Calls chunks m) (ht : e.Timed)
    (he : ¬ e.IsRetry) (hs : m.step e = some m') : Lags m'.sender := by
  obtain ⟨a, hholds⟩ := hcalls.holds
  unfold Lags at h ⊢
  rcases Main.step_cases hs with ⟨now, rfl, -, rfl⟩ | ⟨datagram, junk, rfl, -, rfl⟩ |
    ⟨clock, rfl, -, rfl⟩ | ⟨buf, rfl, -, -, -⟩
  · obtain ⟨hsum, htotal⟩ := transmit_counts hholds ht
    simp only [hsum, htotal]
    exact h
  · obtain ⟨k, -, hdrop, hsent, htotal⟩ := respond_drops hholds datagram junk
    have hle := unsentCount_drop_le m.sender.sendingStack k
    simp only [hsent, htotal, hdrop]
    omega
  · obtain ⟨seqnumToSend, hasRTed, count, pc, hw⟩ := wakeUp_eq clock m.sender
    simp only [hw]
    exact h
  · exact absurd trivial he

/-- A `read` that fails is taken for a receiver that is not there yet. -/
theorem Lags.read_fails (h : Lags s) (junk : Buffer) : (respond s none junk).pc = .failure := by
  have hne : s.totalPacketsToSend ≠ s.totalPacketsSent := by
    unfold Lags at h
    omega
  simp [respond, processResponse, hne]

/-- **A call that is not resumed does not end with the connection**: called on a stack with a sent
packet, it fails at every `read` that fails, also once everything was sent. -/
theorem fails_again (chunks : List Chunk) (buf buf' : Buffer) {es es' : List Main.Event}
    (hrun : exec Main.step (Main.start chunks buf) es = some m)
    (hs : m.step (.retry buf') = some m') (hsent : sentCount m.sender.sendingStack ≠ 0)
    (hsize : chunks.length + 1 < 2 ^ 31) (hes : ∀ e ∈ es', e.Timed ∧ ¬ e.IsRetry) :
    Along Main.step (fun _ e m2 => (∃ junk, e = .read none junk) → m2.sender.pc = .failure)
      m' es' := by
  have hcalls := calls_exec chunks buf hrun
  obtain ⟨a, hholds⟩ := hcalls.holds
  have hlen := hholds.length_eq
  have hlags : Lags m'.sender := by
    obtain ⟨buf2, -, rfl⟩ := Main.step_of_isRetry hs trivial
    exact lags_enter hsent (by omega) buf2.1
  refine Along.of_inv (I := fun m => Calls chunks m ∧ Lags m.sender)
    (C := fun _ e _ => e.Timed ∧ ¬ e.IsRetry) ?_ ?_ ⟨hcalls.step hs, hlags⟩
    (Along.of_forall hes)
  · exact fun m e m' h hC hs => ⟨h.1.step hs, h.2.step h.1 hC.1 hC.2 hs⟩
  · rintro m e m' ⟨-, hlags⟩ - hs ⟨junk, rfl⟩
    rcases Main.step_cases hs with ⟨now, heq, -⟩ | ⟨datagram, junk', heq, -, rfl⟩ |
      ⟨clock, heq, -⟩ | ⟨buf, heq, -⟩
    · exact absurd heq (by simp)
    · rw [Main.Event.read.injEq] at heq
      rw [← heq.1]
      exact hlags.read_fails junk'
    · exact absurd heq (by simp)
    · exact absurd heq (by simp)

end Counts

end Trtp
