import Trtp.Lib.Amortize
import Trtp.Sender.Memory

/-!
# From `read_file` to `stack_free` (`sender.c:117-154`, `sender.c:229-332`)

`main` of the sender with its packets behind pointers: `read_file` makes a packet of each part of
the file, `read_write_loop_sender` is called until it succeeds, and `stack_free` frees what is left.
`pkt_new` returns any address that is not allocated, so that the memory of a freed packet may be
used again by a reply.

* `readFile_points`: the stack that `read_file` leaves.
* `step_owned`: **no step fails, and each does and writes what it does without pointers**.
* `sender_memory_safe`: the same for whole runs, over any bytes read; what is allocated are the
  packets of the stack, and nothing behind `stack_free`.
-/

namespace Trtp.Mem

open Trtp.Run Trtp.Blocks

variable {packets : Packets} {slots : List Slot} {stack : Stack} {p : Ptr}

/-! ## `read_file` -/

/-- `read_file` from its first `read`. `pkt_new` returns the given addresses, which must not be
allocated. -/
def readFile : List Chunk → List Ptr → UInt8 → Packets → List Slot → Option (Packets × List Slot)
  | [], p :: _, nextSeqnum, packets, stack =>
    if packets p = none then
      some (Function.update packets p (some (terminatePacket nextSeqnum)),
        stackEnqueue stack ⟨p, (terminatePacket nextSeqnum).seqnum⟩)
    else none
  | buf :: bufs, p :: ps, nextSeqnum, packets, stack =>
    if packets p = none then
      readFile bufs ps (incrementSeqnum nextSeqnum)
        (Function.update packets p (some (dataPacket nextSeqnum buf)))
        (stackEnqueue stack ⟨p, (dataPacket nextSeqnum buf).seqnum⟩)
    else none
  | _, [], _, _, _ => none

/-- One packet is made and enqueued. -/
theorem enqueue_new (howns : Owns packets (slots.map Slot.pkt))
    (hpoints : List.Forall₂ (Points packets) slots stack) (hnew : packets p = none) (pkt : Pkt) :
    Owns (Function.update packets p (some pkt))
        ((stackEnqueue slots ⟨p, pkt.seqnum⟩).map Slot.pkt) ∧
      List.Forall₂ (Points (Function.update packets p (some pkt)))
        (stackEnqueue slots ⟨p, pkt.seqnum⟩) (Trtp.stackEnqueue stack pkt) :=
  ⟨(howns.alloc hnew pkt).perm ((stackEnqueue_perm ⟨p, pkt.seqnum⟩ slots).map Slot.pkt).symm,
    stackEnqueue_points ⟨p, pkt.seqnum⟩ (points_update hpoints (howns.notMem hnew) (some pkt))
      ⟨Function.update_self p _ _, rfl⟩⟩

/-- **`read_file`**: the packets of the file, wherever they are. -/
theorem readFile_points {chunks : List Chunk} {ps : List Ptr} {nextSeqnum : UInt8}
    {packets' : Packets} {slots' : List Slot} (howns : Owns packets (slots.map Slot.pkt))
    (hpoints : List.Forall₂ (Points packets) slots stack)
    (h : readFile chunks ps nextSeqnum packets slots = some (packets', slots')) :
    Owns packets' (slots'.map Slot.pkt) ∧
      List.Forall₂ (Points packets') slots' (Trtp.readFile chunks nextSeqnum stack) := by
  induction chunks generalizing ps nextSeqnum packets slots stack with
  | nil =>
    cases ps with
    | nil => exact absurd h (by simp [readFile])
    | cons p ps =>
      obtain ⟨hnew, heq⟩ := Option.ite_none_right_eq_some.mp h
      rw [Option.some.injEq, Prod.mk.injEq] at heq
      obtain ⟨rfl, rfl⟩ := heq
      exact enqueue_new howns hpoints hnew (terminatePacket nextSeqnum)
  | cons buf bufs ih =>
    cases ps with
    | nil => exact absurd h (by simp [readFile])
    | cons p ps =>
      obtain ⟨hnew, hrest⟩ := Option.ite_none_right_eq_some.mp h
      obtain ⟨howns', hpoints'⟩ := enqueue_new howns hpoints hnew (dataPacket nextSeqnum buf)
      exact ih howns' hpoints' hrest

/-! ## The retry loop -/

/-- `main` in its retry loop. -/
structure Main where
  sender : Sender
  loop : ℕ

/-- The first call, on what `read_file` left. -/
def Main.start (packets : Packets) (stack : List Slot) (buf : Buffer) : Main :=
  { sender := (Sender.boot packets stack).enter buf.1, loop := 0 }

/-- `loop` behind a failed call. -/
def Main.nextLoop (m : Main) : ℕ := if m.loop < 9 then m.loop + 1 else m.loop

/-- The event can happen, and `pkt_new` returns memory that is not allocated. -/
def Main.Ready (m : Main) (p : Ptr) : Trtp.Main.Event → Prop
  | .transmit _ => m.sender.pc = .top
  | .read _ _ => m.sender.pc = .wait ∧ m.sender.packets p = none
  | .idle _ => m.sender.pc = .wait
  | .retry _ => m.sender.pc = .failure ∧ m.nextLoop < 10

instance (m : Main) (p : Ptr) : DecidablePred (m.Ready p)
  | .transmit _ => inferInstanceAs (Decidable (_ = _))
  | .read _ _ => inferInstanceAs (Decidable (_ ∧ _))
  | .idle _ => inferInstanceAs (Decidable (_ = _))
  | .retry _ => inferInstanceAs (Decidable (_ ∧ _))

/-- `main` with pointers stands for `main` without, and the packets of its stack are all that is
allocated. -/
structure StandsFor (m : Main) (plain : Trtp.Main) : Prop where
  owned : Owned m.sender [] plain.sender.sendingStack
  view_eq : m.sender.view plain.sender.sendingStack = plain.sender
  loop_eq : m.loop = plain.loop

theorem standsFor_of {s : Sender} {loop loop' : ℕ} (h : Owned s [] stack) (hloop : loop = loop') :
    StandsFor ⟨s, loop⟩ ⟨s.view stack, loop'⟩ := ⟨h, rfl, hloop⟩

theorem start_standsFor {chunks : List Chunk} {ps : List Ptr} (buf : Buffer)
    (hfile : readFile chunks ps 0 (fun _ => none) [] = some (packets, slots)) :
    StandsFor (Main.start packets slots buf) (Trtp.Main.start chunks buf) := by
  obtain ⟨howns, hpoints⟩ := readFile_points owns_empty List.Forall₂.nil hfile
  have hboot : Owned (Sender.boot packets slots) [] (Trtp.readFile chunks 0 []) :=
    ⟨by rw [List.append_nil]; exact howns, hpoints⟩
  obtain ⟨howned, hview⟩ := hboot.enter buf.1
  have hplain : Trtp.Main.start chunks buf =
      ⟨((Sender.boot packets slots).enter buf.1).view (Trtp.readFile chunks 0 []), 0⟩ := by
    rw [hview]
    rfl
  rw [hplain]
  exact standsFor_of howned rfl

section Runs

variable [Zlib]

/-- What `main` does in an event, with the datagrams it writes. -/
def Main.part (m : Main) (p : Ptr) : Trtp.Main.Event → Option (Main × List (List UInt8))
  | .transmit now => do
    let (s, out) ← transmit now m.sender
    return ({ m with sender := s }, out.toList)
  | .read datagram junk => do return ({ m with sender := ← respond m.sender datagram junk p }, [])
  | .idle clock => do return ({ m with sender := ← wakeUp clock m.sender }, [])
  | .retry buf => some ({ sender := m.sender.enter buf.1, loop := m.nextLoop }, [])

/-- The step of `main`, with the address that `pkt_new` returns. Nothing follows an error. -/
def Main.step : Option Main → Trtp.Main.Event × Ptr → Option (Option Main)
  | none, _ => none
  | some m, (e, p) => if m.Ready p e then some ((m.part p e).map Prod.fst) else none

/-- The datagrams a step writes. -/
def Main.sends : Option Main → Trtp.Main.Event × Ptr → List (List UInt8)
  | none, _ => []
  | some m, (e, p) => ((m.part p e).map Prod.snd).getD []

/-- The datagrams a step of `main` writes, without pointers. -/
def sent (m : Trtp.Main) : Trtp.Main.Event → List (List UInt8)
  | .transmit now => (Trtp.transmit now m.sender).2.toList
  | .read _ _ | .idle _ | .retry _ => []

/-- **The step**: no part of the loop touches a freed packet, and each does and writes what it does
without pointers. -/
theorem step_owned {chunks : List Chunk} {m : Main} {plain : Trtp.Main} {e : Trtp.Main.Event}
    {s : Option Main} (h : StandsFor m plain) (hcalls : Calls chunks plain)
    (hs : Main.step (some m) (e, p) = some s) :
    ∃ m' plain', s = some m' ∧ plain.step e = some plain' ∧ StandsFor m' plain' ∧
      Main.sends (some m) (e, p) = sent plain e := by
  obtain ⟨hready, heq⟩ := Option.ite_none_right_eq_some.mp hs
  rw [Option.some.injEq] at heq
  obtain ⟨howned, hview, hloop⟩ := h
  have hpc : m.sender.pc = plain.sender.pc := congrArg Trtp.Sender.pc hview
  cases e with
  | transmit now =>
    obtain ⟨s', stack', out, hpart, howned', hvalue⟩ := howned.transmit now
    rw [hview] at hvalue
    have hrun : m.part p (.transmit now) = some ({ m with sender := s' }, out.toList) := by
      simp only [Main.part, hpart, Option.bind_eq_bind, Option.bind_some, Option.pure_def]
    have hplain : plain.step (.transmit now) =
        some { plain with sender := s'.view stack' } := by
      rw [Trtp.Main.step, if_pos (hpc.symm.trans hready), hvalue]
    rw [hrun, Option.map_some] at heq
    refine ⟨_, _, heq.symm, hplain, standsFor_of howned' hloop, ?_⟩
    rw [Main.sends, hrun, sent, hvalue]
    rfl
  | read datagram junk =>
    obtain ⟨s', stack', hpart, howned', hvalue⟩ := howned.respond hready.2 datagram junk
    rw [hview] at hvalue
    have hrun : m.part p (.read datagram junk) = some ({ m with sender := s' }, []) := by
      simp only [Main.part, hpart, Option.bind_eq_bind, Option.bind_some, Option.pure_def]
    have hplain : plain.step (.read datagram junk) =
        some { plain with sender := s'.view stack' } := by
      rw [Trtp.Main.step, if_pos (hpc.symm.trans hready.1), hvalue]
    rw [hrun, Option.map_some] at heq
    refine ⟨_, _, heq.symm, hplain, standsFor_of howned' hloop, ?_⟩
    rw [Main.sends, hrun]
    rfl
  | idle clock =>
    -- a call in progress has a packet
    have hne := hcalls.nonempty (by rw [← hpc, show m.sender.pc = .wait from hready]; decide)
    obtain ⟨s', hpart, howned', hvalue⟩ := howned.wakeUp hne clock
    rw [hview] at hvalue
    have hrun : m.part p (.idle clock) = some ({ m with sender := s' }, []) := by
      simp only [Main.part, hpart, Option.bind_eq_bind, Option.bind_some, Option.pure_def]
    have hplain : plain.step (.idle clock) =
        some { plain with sender := s'.view plain.sender.sendingStack } := by
      rw [Trtp.Main.step, if_pos (hpc.symm.trans hready), hvalue]
    rw [hrun, Option.map_some] at heq
    refine ⟨_, _, heq.symm, hplain, standsFor_of howned' hloop, ?_⟩
    rw [Main.sends, hrun]
    rfl
  | retry buf =>
    obtain ⟨howned', hvalue⟩ := howned.enter buf.1
    rw [hview] at hvalue
    have hnext : m.nextLoop = plain.nextLoop := by
      unfold Main.nextLoop Trtp.Main.nextLoop
      rw [hloop]
    have hplain : plain.step (.retry buf) = some
        { sender := (m.sender.enter buf.1).view plain.sender.sendingStack
          loop := plain.nextLoop } := by
      rw [Trtp.Main.step, if_pos ⟨hpc.symm.trans hready.1, hnext ▸ hready.2⟩, hvalue]
    exact ⟨_, _, heq.symm, hplain, standsFor_of howned' hnext, rfl⟩

/-- **A run** is a run without pointers. -/
theorem run_owned {chunks : List Chunk} {es : List (Trtp.Main.Event × Ptr)} {m : Main}
    {plain : Trtp.Main} {s : Option Main} (h : StandsFor m plain) (hcalls : Calls chunks plain)
    (hs : exec Main.step (some m) es = some s) :
    ∃ m' plain', s = some m' ∧ exec Trtp.Main.step plain (es.map Prod.fst) = some plain' ∧
      StandsFor m' plain' ∧ collect Main.step Main.sends (some m) es =
        collect Trtp.Main.step sent plain (es.map Prod.fst) := by
  induction es generalizing m plain with
  | nil =>
    rw [exec, Option.some.injEq] at hs
    exact ⟨m, plain, hs.symm, rfl, h, rfl⟩
  | cons e es ih =>
    obtain ⟨s1, hstep, hs'⟩ := exec_cons_inv hs
    obtain ⟨m1, plain1, rfl, hplain, h1, hsends⟩ := step_owned h hcalls hstep
    obtain ⟨m', plain', rfl, hrun, h', hcollect⟩ := ih h1 (hcalls.step hplain) hs'
    refine ⟨m', plain', rfl, ?_, h', ?_⟩
    · rw [List.map_cons, exec, hplain]
      exact hrun
    · rw [List.map_cons, collect_cons hstep, collect_cons hplain, hsends, hcollect]

/-- **The sender's memory is safe**, over any bytes read and wherever its packets are allocated. No
packet is used or freed again after `pkt_del`, `main` does and writes what it does without pointers,
and behind `stack_free` nothing is allocated. -/
theorem sender_memory_safe {chunks : List Chunk} {ps : List Ptr} (buf : Buffer)
    (hfile : readFile chunks ps 0 (fun _ => none) [] = some (packets, slots))
    {es : List (Trtp.Main.Event × Ptr)} {s : Option Main}
    (hs : exec Main.step (some (Main.start packets slots buf)) es = some s) :
    ∃ m plain, s = some m ∧
      exec Trtp.Main.step (Trtp.Main.start chunks buf) (es.map Prod.fst) = some plain ∧
      StandsFor m plain ∧
      collect Main.step Main.sends (some (Main.start packets slots buf)) es =
        collect Trtp.Main.step sent (Trtp.Main.start chunks buf) (es.map Prod.fst) ∧
      stackFree m.sender.sendingStack m.sender.packets = some fun _ => none := by
  obtain ⟨m, plain, rfl, hrun, hstands, hcollect⟩ :=
    run_owned (start_standsFor buf hfile) (calls_start chunks buf) hs
  obtain ⟨packets', hfree, howns⟩ := stackFree_owns hstands.owned.owns
  rw [howns.eq_none] at hfree
  exact ⟨m, plain, rfl, hrun, hstands, hcollect, hfree⟩

end Runs

/-- One byte, sent and acknowledged; the second reply takes the place of the first packet. -/
def oneByte [Zlib] : List (Trtp.Main.Event × Ptr) :=
  [(.transmit 1, 0), (.read (some (wire (replyPkt 31 .ack 1 1))) cleared, 2), (.transmit 1, 0),
    (.read (some (wire (replyPkt 31 .nack 1 1))) cleared, 0)]

set_option maxRecDepth 8000 in
open Zlib.Standard in
theorem sender_memory_safe_oneByte :
    ∃ packets slots, readFile byteFile [0, 1] 0 (fun _ => none) [] = some (packets, slots) ∧
      ∃ s, exec Main.step (some (Main.start packets slots cleared)) oneByte = some s ∧
        ∃ m plain, s = some m ∧
          exec Trtp.Main.step (Trtp.Main.start byteFile cleared) (oneByte.map Prod.fst) =
            some plain ∧
          StandsFor m plain ∧
          collect Main.step Main.sends (some (Main.start packets slots cleared)) oneByte =
            collect Trtp.Main.step sent (Trtp.Main.start byteFile cleared)
              (oneByte.map Prod.fst) ∧
          stackFree m.sender.sendingStack m.sender.packets = some fun _ => none := by
  obtain ⟨s, hs⟩ := Option.isSome_iff_exists.mp
    (by decide +kernel : ((readFile byteFile [0, 1] 0 (fun _ => none) []).bind fun file =>
      exec Main.step (some (Main.start file.1 file.2 cleared)) oneByte).isSome)
  obtain ⟨⟨packets, slots⟩, hfile, hrun⟩ := Option.bind_eq_some_iff.mp hs
  exact ⟨packets, slots, hfile, s, hrun, sender_memory_safe cleared hfile hrun⟩

end Trtp.Mem
