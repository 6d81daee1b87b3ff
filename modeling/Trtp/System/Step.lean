import Trtp.Sender.File

/-!
# Sender, receiver and the network between them

The sender in its main loop, the receiver in its loop, and the datagrams in flight each way.
An event is one part of a program's loop, or something the network does:

* `transmit`, `reply`, `idle`: the two parts of an iteration of `read_write_loop_sender`;
* `deliver`: one turn of `read_write_loop_receiver`;
* `lose*`, `dup*`: the network drops a datagram or repeats it in place;
* `damaged*`: a datagram arrives damaged. Any bytes may arrive in its place that `pkt_decode`
  rejects in the buffer they are read into.

Data arrive in the order they were sent. A `reply` event may take any datagram in flight, so that
replies overtake each other; with index 0 it is the oldest (`Event.InOrder`). `idle` takes any
clock: timers may expire at any time. `read` and `write` succeed, and `time` is never 0.

With each datagram in flight goes a number no program sees: the packet a data frame carries, the
number of packets delivered when a reply was sent.
-/

namespace Trtp

/-- Both programs and the datagrams in flight, the oldest first. `total` is the number of packets
of the file. -/
structure Sys where
  total : ℕ
  sender : Sender
  receiver : Receiver
  data : List (ℕ × List UInt8)
  replies : List (ℕ × List UInt8)

/-- The packets the sender has removed: the stack is those from here on. -/
def Sys.acked (s : Sys) : ℕ := s.total - s.sender.sendingStack.length

/-- The packets the receiver has delivered, the terminating one included. -/
def Receiver.delivered (r : Receiver) : ℕ := r.output.length + if r.closed then 1 else 0

/-- The packet that `seqnumToSend` names in the stack. -/
def Sys.toSend (s : Sys) : ℕ := s.acked + offset (UInt8.ofNat s.acked) s.sender.seqnumToSend

/-- What happens next. -/
inductive Event where
  | transmit (now : UInt32)
  | reply (i : ℕ) (junk : Buffer)
  | damagedReply (i : ℕ) (datagram : List UInt8) (junk : Buffer)
  | idle (clock : ℕ → ℤ)
  | deliver (dangling : Pkt)
  | damagedData (dangling : Pkt) (datagram : List UInt8)
  | loseData (i : ℕ)
  | dupData (i : ℕ)
  | loseReply (i : ℕ)
  | dupReply (i : ℕ)

/-- Replies are read in the order they were sent. -/
def Event.InOrder : Event → Prop
  | .reply i _ => i = 0
  | .damagedReply i _ _ => i = 0
  | _ => True

instance : DecidablePred Event.InOrder
  | .reply i _ => inferInstanceAs (Decidable (i = 0))
  | .damagedReply i _ _ => inferInstanceAs (Decidable (i = 0))
  | .transmit _ | .idle _ | .deliver _ | .damagedData _ _ | .loseData _ | .dupData _
  | .loseReply _ | .dupReply _ => isTrue trivial

/-- A datagram repeated in place; nothing happens behind the end. -/
def duplicate {α : Type} (frames : List α) (i : ℕ) : List α := frames.take (i + 1) ++ frames.drop i

/-- A file cut into packets, both programs at the start of their loops, nothing in flight. -/
def Sys.start (chunks : List Chunk) (buf : Buffer) : Sys :=
  { total := chunks.length + 1
    sender := (Sender.boot (readFile chunks 0 [])).enter buf.1
    receiver := Receiver.start
    data := []
    replies := [] }

/-- A file of `512 n + 1` bytes as it is read, for the runs on fixed inputs. -/
def fileOf (n : ℕ) : List Chunk :=
  List.replicate n ⟨List.replicate 512 97, by rw [List.length_replicate]; decide⟩ ++
    [⟨[97], by decide⟩]

theorem start_sender (chunks : List Chunk) (buf : Buffer) :
    (Sys.start chunks buf).sender =
      { sendingStack := readFile chunks 0 [], seqnumToSend := 0, lastSeqnumAcked := 0
        lastSeqnumAckedCounter := 0, receiverWindowSize := 1
        totalPacketsToSend := Int.bmod ((chunks.length + 1 : ℕ) : ℤ) (2 ^ 32)
        totalPacketsSent := 0, hasRTed := false, hasNACKed := false
        hasFastRetransmitted := false, lastpacketsSentCount := 0, lastEncodedSeqnum := 0
        buf := buf.1, pc := .top } := by
  have hlen : (readFile chunks 0 []).length = chunks.length + 1 := by
    have := (readFile_holds chunks).1.length_eq
    omega
  unfold Sys.start Sender.enter Sender.boot loopHead
  rw [if_pos ⟨by rw [hlen]; omega, rfl⟩, hlen]

/-- The second ACK overtakes a copy of the first. -/
def overtaking : List Event :=
  [.transmit 1, .deliver pktNew, .dupReply 0, .reply 0 cleared, .transmit 1, .deliver pktNew,
    .reply 1 cleared, .transmit 1]

theorem acked_start (chunks : List Chunk) (buf : Buffer) : (Sys.start chunks buf).acked = 0 := by
  have hlen := (readFile_holds chunks).1.length_eq
  rw [Sys.acked, start_sender, show (Sys.start chunks buf).total = chunks.length + 1 from rfl]
  simp only
  omega

theorem acked_congr {s s' : Sys} (htotal : s'.total = s.total)
    (hstack : s'.sender.sendingStack = s.sender.sendingStack) : s'.acked = s.acked := by
  rw [Sys.acked, Sys.acked, htotal, hstack]

section Step

variable [Zlib]

/-- `pkt_decode` does not accept the first `n` bytes of the datagram in this buffer. -/
def Rejected (buf : Buffer) (n : ℕ) (datagram : List UInt8) : Prop :=
  (pktDecode (readInto buf n datagram) (min n datagram.length) pktNew).1 ≠ .pktOk

instance (buf : Buffer) (n : ℕ) (datagram : List UInt8) : Decidable (Rejected buf n datagram) :=
  inferInstanceAs (Decidable (_ ≠ _))

/-- The receiver's turn with a datagram. -/
def Sys.turn (s : Sys) (dangling : Pkt) (datagram : List UInt8) (rest : List (ℕ × List UInt8)) :
    Sys :=
  { s with
    receiver := (receive dangling s.receiver datagram).1
    data := rest
    replies := s.replies ++ (receive dangling s.receiver datagram).2.map fun reply =>
      ((receive dangling s.receiver datagram).1.delivered, reply) }

/-- The system's step; `none` when the event cannot happen. -/
def step (s : Sys) : Event → Option Sys
  | .transmit now =>
    if s.sender.pc = .top ∧ now ≠ 0 then
      some { s with
        sender := (transmit now s.sender).1
        data := s.data ++ (transmit now s.sender).2.toList.map fun datagram =>
          (s.toSend, datagram) }
    else none
  | .reply i junk =>
    match s.replies[i]? with
    | some frame =>
      if s.sender.pc = .wait then
        some { s with
          sender := respond s.sender (some frame.2) junk, replies := s.replies.eraseIdx i }
      else none
    | none => none
  | .damagedReply i datagram junk =>
    if i < s.replies.length ∧ s.sender.pc = .wait ∧ Rejected junk 12 datagram then
      some { s with
        sender := respond s.sender (some datagram) junk, replies := s.replies.eraseIdx i }
    else none
  | .idle clock =>
    if s.sender.pc = .wait then some { s with sender := wakeUp clock s.sender } else none
  | .deliver dangling =>
    match s.data with
    | frame :: rest =>
      if s.receiver.closed = false then some (s.turn dangling frame.2 rest) else none
    | [] => none
  | .damagedData dangling datagram =>
    match s.data with
    | _ :: rest =>
      if s.receiver.closed = false ∧ Rejected cleared 528 datagram then
        some (s.turn dangling datagram rest)
      else none
    | [] => none
  | .loseData i => some { s with data := s.data.eraseIdx i }
  | .dupData i => some { s with data := duplicate s.data i }
  | .loseReply i => some { s with replies := s.replies.eraseIdx i }
  | .dupReply i => some { s with replies := duplicate s.replies i }

end Step

/-! ## What a step can be -/

theorem mem_duplicate {α : Type} {frames : List α} {i : ℕ} {frame : α} :
    frame ∈ duplicate frames i ↔ frame ∈ frames := by
  unfold duplicate
  rw [List.mem_append]
  constructor
  · rintro (h | h)
    · exact List.mem_of_mem_take h
    · exact List.mem_of_mem_drop h
  · intro h
    rw [← List.take_append_drop i frames, List.mem_append] at h
    rcases h with h | h
    · exact Or.inl ((List.take_prefix_take_left (by omega)).subset h)
    · exact Or.inr h

/-- A repeated datagram stands right behind itself. -/
theorem duplicate_eq {α : Type} (frames : List α) (i : ℕ) :
    duplicate frames i = frames ∨
      ∃ pre frame post, frames = pre ++ frame :: post ∧
        duplicate frames i = pre ++ frame :: frame :: post := by
  unfold duplicate
  by_cases hi : i < frames.length
  · refine Or.inr ⟨frames.take i, frames[i], frames.drop (i + 1), ?_, ?_⟩
    · rw [List.getElem_cons_drop, List.take_append_drop]
    · rw [List.take_succ_eq_append_getElem hi, List.append_assoc, ← List.getElem_cons_drop hi]
      rfl
  · rw [List.drop_eq_nil_of_le (by omega), List.take_of_length_le (by omega), List.append_nil]
    exact Or.inl rfl

section Cases

variable [Zlib] {s s' : Sys}

theorem step_transmit {now : UInt32} (h : step s (.transmit now) = some s') :
    s.sender.pc = .top ∧ now ≠ 0 ∧ s' = { s with
      sender := (transmit now s.sender).1
      data := s.data ++ (transmit now s.sender).2.toList.map fun datagram =>
        (s.toSend, datagram) } := by
  simp only [step] at h
  split at h
  · rename_i hc
    exact ⟨hc.1, hc.2, (Option.some.inj h).symm⟩
  · exact absurd h (by simp)

theorem step_reply {i : ℕ} {junk : Buffer} (h : step s (.reply i junk) = some s') :
    ∃ frame, s.replies[i]? = some frame ∧ s.sender.pc = .wait ∧ s' = { s with
      sender := respond s.sender (some frame.2) junk, replies := s.replies.eraseIdx i } := by
  simp only [step] at h
  cases hf : s.replies[i]? with
  | none =>
    simp only [hf] at h
    exact absurd h (by simp)
  | some frame =>
    simp only [hf] at h
    split at h
    · rename_i hc
      exact ⟨frame, rfl, hc, (Option.some.inj h).symm⟩
    · exact absurd h (by simp)

theorem step_damagedReply {i : ℕ} {datagram : List UInt8} {junk : Buffer}
    (h : step s (.damagedReply i datagram junk) = some s') :
    s.sender.pc = .wait ∧ Rejected junk 12 datagram ∧ s' = { s with
      sender := respond s.sender (some datagram) junk, replies := s.replies.eraseIdx i } := by
  simp only [step] at h
  split at h
  · rename_i hc
    exact ⟨hc.2.1, hc.2.2, (Option.some.inj h).symm⟩
  · exact absurd h (by simp)

theorem step_idle {clock : ℕ → ℤ} (h : step s (.idle clock) = some s') :
    s.sender.pc = .wait ∧ s' = { s with sender := wakeUp clock s.sender } := by
  simp only [step] at h
  split at h
  · rename_i hc
    exact ⟨hc, (Option.some.inj h).symm⟩
  · exact absurd h (by simp)

theorem step_deliver {dangling : Pkt} (h : step s (.deliver dangling) = some s') :
    ∃ frame rest, s.data = frame :: rest ∧ s.receiver.closed = false ∧
      s' = s.turn dangling frame.2 rest := by
  simp only [step] at h
  split at h
  · rename_i frame rest hd
    split at h
    · rename_i hc
      exact ⟨frame, rest, hd, hc, (Option.some.inj h).symm⟩
    · exact absurd h (by simp)
  · exact absurd h (by simp)

theorem step_damagedData {dangling : Pkt} {datagram : List UInt8}
    (h : step s (.damagedData dangling datagram) = some s') :
    ∃ frame rest, s.data = frame :: rest ∧ s.receiver.closed = false ∧
      Rejected cleared 528 datagram ∧ s' = s.turn dangling datagram rest := by
  simp only [step] at h
  split at h
  · rename_i frame rest hd
    split at h
    · rename_i hc
      exact ⟨frame, rest, hd, hc.1, hc.2, (Option.some.inj h).symm⟩
    · exact absurd h (by simp)
  · exact absurd h (by simp)

end Cases

end Trtp
