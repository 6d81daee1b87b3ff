import Trtp.Lib.Arq
import Trtp.Lib.Simulation
import Trtp.System.Numbers

/-!
# The transfer is selective repeat with numbers that do not wrap

`Trtp.Lib.Arq` says what the two programs are for: items known by their numbers in `ℕ`, windows of
`W`. Here `W` is 31, the items are the packets of the file, and item `n` is the terminating packet.
The programs only see the numbers modulo 256, segments, timers and a circular list.

* `Implements chunks s a`: what a state of the two programs shows of a state `a` of that protocol.
* `linked_step`: **every step of the programs and of the network is matched by steps of the
  protocol**; an iteration that sends nothing, or a timer, by none.
* `refines_unbounded`: every run in order is matched by a run of the protocol.
* `forward_only`: what is acknowledged, written or ended stays so.
-/

namespace Trtp

open Trtp.Run Trtp.Reassembly

variable {chunks : List Chunk} {s s' : Sys} {a : Arq.State}

/-! ## Lines of datagrams -/

/-- The replies behind the first one. -/
theorem exists_rest {frame : ℕ × List UInt8} (hframe : s.replies[0]? = some frame) :
    ∃ rest, s.replies = frame :: rest ∧ s.replies.eraseIdx 0 = rest := by
  cases hr : s.replies with
  | nil =>
    rw [hr] at hframe
    exact absurd hframe (by simp)
  | cons first rest =>
    rw [hr, List.getElem?_cons_zero, Option.some.injEq] at hframe
    exact ⟨rest, by rw [hframe], rfl⟩

/-- One of two lists in step is split where the other is. -/
theorem exists_split {α β : Type} {R : α → β → Prop} {l : List α} {pre post : List β} {y : β}
    (h : List.Forall₂ R l (pre ++ y :: post)) :
    ∃ pre' x post', l = pre' ++ x :: post' ∧ List.Forall₂ R pre' pre ∧ R x y ∧
      List.Forall₂ R post' post := by
  induction pre generalizing l with
  | nil =>
    obtain ⟨x, post', hx, hpost, rfl⟩ := List.forall₂_cons_right_iff.mp h
    exact ⟨[], x, post', rfl, List.Forall₂.nil, hx, hpost⟩
  | cons z pre ih =>
    obtain ⟨w, l', hw, hl', rfl⟩ := List.forall₂_cons_right_iff.mp h
    obtain ⟨pre', x, post', rfl, hpre, hx, hpost⟩ := ih hl'
    exact ⟨w :: pre', x, post', rfl, List.Forall₂.cons hw hpre, hx, hpost⟩

/-- What is erased was there, or nothing happens. -/
theorem eraseIdx_eq {α : Type} (frames : List α) (i : ℕ) :
    frames.eraseIdx i = frames ∨
      ∃ pre frame post, frames = pre ++ frame :: post ∧ frames.eraseIdx i = pre ++ post := by
  by_cases hi : i < frames.length
  · refine Or.inr ⟨frames.take i, frames[i], frames.drop (i + 1), ?_,
      List.eraseIdx_eq_take_drop_succ frames i⟩
    rw [List.getElem_cons_drop, List.take_append_drop]
  · exact Or.inl (List.eraseIdx_of_length_le (not_lt.mp hi))

/-- Data frames are lost or repeated. -/
theorem exists_data (h : a.data = s.inFlight) (i : ℕ) :
    Relation.ReflTransGen (Arq.Step 31 chunks.length) a
        { a with data := (s.data.eraseIdx i).map Prod.fst } ∧
      Relation.ReflTransGen (Arq.Step 31 chunks.length) a
        { a with data := (duplicate s.data i).map Prod.fst } := by
  constructor
  · rcases eraseIdx_eq s.data i with hsame | ⟨pre, frame, post, hsplit, herase⟩
    · rw [hsame, ← Sys.inFlight, ← h]
    · rw [Sys.inFlight, hsplit, List.map_append, List.map_cons] at h
      rw [herase, List.map_append]
      exact Relation.ReflTransGen.single (Arq.Step.loseData _ _ _ h)
  · rcases duplicate_eq s.data i with hsame | ⟨pre, frame, post, hsplit, hdup⟩
    · rw [hsame, ← Sys.inFlight, ← h]
    · rw [Sys.inFlight, hsplit, List.map_append, List.map_cons] at h
      rw [hdup, List.map_append, List.map_cons, List.map_cons]
      exact Relation.ReflTransGen.single (Arq.Step.dupData _ _ _ h)

section Unbounded

variable [Zlib]

/-! ## The two systems -/

/-- A datagram with the number of a reply, modulo 256. -/
def Carries (r : Arq.Reply) (frame : ℕ × List UInt8) : Prop :=
  r.number = frame.1 ∧ IsReply (if r.ack then .ack else .nack) r.number frame.2

/-- What the programs show of a state of the protocol. -/
structure Implements (chunks : List Chunk) (s : Sys) (a : Arq.State) : Prop where
  acked : a.acked = s.acked
  received : Received chunks a.got s.receiver
  closed : s.receiver.closed = true ↔ chunks.length ∈ a.got
  data : a.data = s.inFlight
  frames : ∀ frame ∈ s.data, ∃ pkt, IsData (contents chunks) frame.1 pkt ∧ frame.2 = wire pkt ∧
    frame.2[1]? = some (UInt8.ofNat frame.1)
  replies : List.Forall₂ Carries a.replies s.replies
  finished : a.finished = true ↔ s.sender.pc = .success

/-- The relation of the simulation. -/
structure Linked (chunks : List Chunk) (s : Sys) (a : Arq.State) : Prop where
  fifo : Fifo chunks a.got s
  acked : a.acked = s.acked
  data : a.data = s.inFlight
  replies : List.Forall₂ Carries a.replies s.replies
  finished : a.finished = true ↔ s.sender.pc = .success

theorem linked_start (chunks : List Chunk) (buf : Buffer) :
    Linked chunks (Sys.start chunks buf) Arq.start where
  fifo := fifo_start chunks buf
  acked := (acked_start chunks buf).symm
  data := rfl
  replies := List.Forall₂.nil
  finished := by
    rw [start_sender]
    simp [Arq.start]

theorem Linked.implements (h : Linked chunks s a) : Implements chunks s a where
  acked := h.acked
  received := h.fifo.inv.received
  closed := by
    refine ⟨fun hclosed => ?_, fun hmem => ?_⟩
    · cases h.fifo.inv.received with
      | inLoop hrep => exact absurd (hrep.open_eq.symm.trans hclosed) (by simp)
      | left hclosed hall hexp hout hempty => exact mem_of_lt_next (by omega)
    · rw [← Bool.not_eq_false]
      exact fun hopen => h.fifo.absent hopen hmem
  data := h.data
  frames := fun frame hf => by
    obtain ⟨pkt, hdata, hwire⟩ := h.fifo.inv.frames frame hf
    exact ⟨pkt, hdata, hwire, h.fifo.number_frame hf⟩
  replies := h.replies
  finished := h.finished

/-! ## Steps of the sender -/

/-- The sender was running. It may be at its end now, and the protocol ends then. -/
theorem exists_linked (hfifo : Fifo chunks a.got s) (hacked : a.acked = s.acked)
    (hdata : a.data = s.inFlight) (hreplies : List.Forall₂ Carries a.replies s.replies)
    (hrunning : a.finished = false) :
    ∃ a', Relation.ReflTransGen (Arq.Step 31 chunks.length) a a' ∧ Linked chunks s a' := by
  by_cases hdone : s.sender.pc = .success
  · have hall : chunks.length ≤ a.acked := hacked ▸ hfifo.ends.done hdone
    exact ⟨_, Relation.ReflTransGen.single (Arq.Step.finish hall),
      ⟨hfifo, hacked, hdata, hreplies, iff_of_true rfl hdone⟩⟩
  · exact ⟨a, Relation.ReflTransGen.refl,
      ⟨hfifo, hacked, hdata, hreplies, iff_of_false (by simp [hrunning]) hdone⟩⟩

theorem Linked.running (h : Linked chunks s a) (hpc : s.sender.pc ≠ .success) :
    a.finished = false := by
  rw [← Bool.not_eq_true, h.finished]
  exact hpc

/-- A transmission is a `send`, or nothing. -/
theorem Linked.transmit {now : UInt32} (h : Linked chunks s a)
    (hs : step s (.transmit now) = some s') :
    ∃ a', Relation.ReflTransGen (Arq.Step 31 chunks.length) a a' ∧ Linked chunks s' a' := by
  have hfifo' := h.fifo.transmit hs
  obtain ⟨-, hacked'⟩ := h.fifo.inv.transmit hs
  obtain ⟨htop, -, heq⟩ := step_transmit hs
  have hrunning := h.running (by rw [htop]; simp)
  cases hsent : (Trtp.transmit now s.sender).2 with
  | none =>
    rw [hsent, Option.toList_none, List.map_nil, List.append_nil] at heq
    refine exists_linked hfifo' (h.acked.trans hacked'.symm) ?_ ?_ hrunning
    · rw [heq]
      exact h.data
    · rw [heq]
      exact h.replies
  | some datagram =>
    obtain ⟨-, hin, -⟩ := h.fifo.toSend hs hsent
    have hnear := hfifo'.near (Or.inr hin)
    have hlt := hfifo'.inv.lt_total _ (Or.inr hin)
    have htotal := hfifo'.inv.total_eq
    have hlo : s.acked ≤ s.toSend := Nat.le_add_right _ _
    rw [hsent, Option.toList_some, List.map_singleton] at heq
    have hlast : s.toSend < chunks.length ∨ s.toSend = chunks.length ∧ s.acked = chunks.length := by
      rcases Nat.lt_or_ge s.toSend chunks.length with hlt' | hge
      · exact Or.inl hlt'
      · have hend : s.toSend = chunks.length := by omega
        have := hfifo'.last (Or.inr (hend ▸ hin))
        exact Or.inr ⟨hend, by omega⟩
    have hsend := Arq.Step.send (W := 31) (s := a) s.toSend (h.acked.trans_le hlo)
      (by rw [h.acked]; omega) (h.acked ▸ hlast)
    obtain ⟨a', hrun, hlinked⟩ := exists_linked (a := { a with data := a.data ++ [s.toSend] })
      hfifo' (h.acked.trans hacked'.symm) (by rw [heq, h.data]; simp [Sys.inFlight])
      (by rw [heq]; exact h.replies) hrunning
    exact ⟨a', (Relation.ReflTransGen.single hsend).trans hrun, hlinked⟩

/-- **An ACK read in order takes the sender to its number.** -/
theorem Fifo.acked_ack {S : Finset ℕ} {frame : ℕ × List UInt8} {junk : Buffer}
    (h : Fifo chunks S s) (hframe : s.replies[0]? = some frame)
    (hrep : IsReply .ack frame.1 frame.2) (hs : step s (.reply 0 junk) = some s') :
    s'.acked = frame.1 := by
  have hmem := List.mem_of_getElem? hframe
  have hfresh := h.fresh frame hmem
  obtain ⟨m, hack, -⟩ := h.inv.ack (h.inv.replies frame hmem).1 fun hlt =>
    absurd hfresh (not_le.mpr hlt)
  obtain ⟨frame', hframe', -, heq⟩ := step_reply hs
  rw [hframe, Option.some.injEq] at hframe'
  subst hframe'
  obtain ⟨window, ts, -, h31, hwire⟩ := hrep
  obtain ⟨t, counter, mainBreak, hresp, ht⟩ :=
    respond_ack s.sender junk ts (UInt8.ofNat frame.1) h31
  have hstack : s'.sender.sendingStack = s.sender.sendingStack.drop m := by
    rw [heq, hwire, hresp, endIteration_sendingStack, ← hack.removed]
    rcases ht with rfl | ⟨-, rfl⟩ <;> rfl
  have hsum := h.length_eq
  have hsum' := (h.reply hs).length_eq
  have hle := hack.le_length
  have hkm := hack.fresh hfresh
  rw [hstack, List.length_drop] at hsum'
  omega

/-- A NACK leaves the stack as it is. -/
theorem acked_nack {frame : ℕ × List UInt8} {junk : Buffer} (hframe : s.replies[0]? = some frame)
    (hrep : IsReply .nack frame.1 frame.2) (hs : step s (.reply 0 junk) = some s') :
    s'.acked = s.acked := by
  obtain ⟨frame', hframe', -, heq⟩ := step_reply hs
  rw [hframe, Option.some.injEq] at hframe'
  subst hframe'
  obtain ⟨window, ts, -, h31, hwire⟩ := hrep
  obtain ⟨mainBreak, hresp⟩ := respond_nack s.sender junk ts (UInt8.ofNat frame.1) h31
  refine acked_congr (by rw [heq]) ?_
  rw [heq, hwire, hresp, endIteration_sendingStack]

/-- A reply that is read is an `ack`, or is lost. -/
theorem Linked.reply {junk : Buffer} (h : Linked chunks s a)
    (hs : step s (.reply 0 junk) = some s') :
    ∃ a', Relation.ReflTransGen (Arq.Step 31 chunks.length) a a' ∧ Linked chunks s' a' := by
  have hfifo' := h.fifo.reply hs
  obtain ⟨frame, hframe, hwait, heq⟩ := step_reply hs
  have hrunning := h.running (by rw [hwait]; simp)
  have hfresh := h.fifo.fresh frame (List.mem_of_getElem? hframe)
  obtain ⟨rest, hsplit, hrest⟩ := exists_rest hframe
  have hreplies := h.replies
  rw [hsplit] at hreplies
  obtain ⟨⟨ack, k⟩, rs, ⟨hk, hrep⟩, hrs, har⟩ := List.forall₂_cons_right_iff.mp hreplies
  simp only at hk
  subst hk
  have hdata : a.data = s'.inFlight := by
    rw [heq]
    exact h.data
  rw [hrest] at heq
  cases ack with
  | true =>
    have hacked' : max a.acked frame.1 = s'.acked := by
      rw [h.acked, h.fifo.acked_ack hframe hrep hs]
      exact max_eq_right hfresh
    obtain ⟨a', hrun, hlinked⟩ := exists_linked
      (a := { a with acked := max a.acked frame.1, replies := rs }) hfifo' hacked' hdata
      (by rw [heq]; exact hrs) hrunning
    exact ⟨a', (Relation.ReflTransGen.single (Arq.Step.ack _ _ har)).trans hrun, hlinked⟩
  | false =>
    have hacked' := acked_nack hframe hrep hs
    obtain ⟨a', hrun, hlinked⟩ := exists_linked
      (a := { a with replies := rs }) (s := s') hfifo' (h.acked.trans hacked'.symm) hdata
      (by rw [heq]; exact hrs) hrunning
    exact ⟨a', (Relation.ReflTransGen.single (Arq.Step.loseReply [] _ _ har)).trans hrun, hlinked⟩

/-! ## The network -/

/-- A reply is lost. -/
theorem exists_loseReply (n : ℕ) {replies : List (ℕ × List UInt8)}
    (h : List.Forall₂ Carries a.replies replies) (i : ℕ) :
    ∃ rs, Relation.ReflTransGen (Arq.Step 31 n) a { a with replies := rs } ∧
      List.Forall₂ Carries rs (replies.eraseIdx i) := by
  rcases eraseIdx_eq replies i with hsame | ⟨pre, frame, post, rfl, herase⟩
  · exact ⟨a.replies, Relation.ReflTransGen.refl, hsame.symm ▸ h⟩
  · obtain ⟨pre', r, post', hsplit, hpre, -, hpost⟩ := exists_split h
    exact ⟨pre' ++ post', Relation.ReflTransGen.single (Arq.Step.loseReply _ _ _ hsplit),
      herase ▸ List.rel_append hpre hpost⟩

/-- A reply is repeated. -/
theorem exists_dupReply (n : ℕ) {replies : List (ℕ × List UInt8)}
    (h : List.Forall₂ Carries a.replies replies) (i : ℕ) :
    ∃ rs, Relation.ReflTransGen (Arq.Step 31 n) a { a with replies := rs } ∧
      List.Forall₂ Carries rs (duplicate replies i) := by
  rcases duplicate_eq replies i with hsame | ⟨pre, frame, post, rfl, hdup⟩
  · exact ⟨a.replies, Relation.ReflTransGen.refl, hsame.symm ▸ h⟩
  · obtain ⟨pre', r, post', hsplit, hpre, hr, hpost⟩ := exists_split h
    exact ⟨pre' ++ r :: r :: post', Relation.ReflTransGen.single (Arq.Step.dupReply _ _ _ hsplit),
      hdup ▸ List.rel_append hpre (List.Forall₂.cons hr (List.Forall₂.cons hr hpost))⟩

theorem Linked.damagedReply {i : ℕ} {datagram : List UInt8} {junk : Buffer}
    (h : Linked chunks s a) (hs : step s (.damagedReply i datagram junk) = some s') :
    ∃ a', Relation.ReflTransGen (Arq.Step 31 chunks.length) a a' ∧ Linked chunks s' a' := by
  have hfifo' := h.fifo.damagedReply hs
  obtain ⟨hwait, hrej, heq⟩ := step_damagedReply hs
  have hrunning := h.running (by rw [hwait]; simp)
  have hacked : s'.acked = s.acked := by
    refine acked_congr (by rw [heq]) ?_
    rw [heq, respond_rejected hrej, endIteration_sendingStack]
  obtain ⟨rs, hrun, hrs⟩ := exists_loseReply chunks.length h.replies i
  obtain ⟨a', hrun', hlinked⟩ := exists_linked (a := { a with replies := rs }) hfifo'
    (h.acked.trans hacked.symm) (by rw [heq]; exact h.data) (by rw [heq]; exact hrs) hrunning
  exact ⟨a', hrun.trans hrun', hlinked⟩

theorem Linked.idle {clock : ℕ → ℤ} (h : Linked chunks s a)
    (hs : step s (.idle clock) = some s') :
    ∃ a', Relation.ReflTransGen (Arq.Step 31 chunks.length) a a' ∧ Linked chunks s' a' := by
  have hfifo' := h.fifo.idle hs
  obtain ⟨hwait, heq⟩ := step_idle hs
  have hacked : s'.acked = s.acked :=
    acked_congr (by rw [heq]) (by rw [heq]; exact (wakeUp_keeps clock s.sender).1)
  exact exists_linked hfifo' (h.acked.trans hacked.symm) (by rw [heq]; exact h.data)
    (by rw [heq]; exact h.replies) (h.running (by rw [hwait]; simp))

/-! ## Steps of the receiver -/

/-- The replies of a turn go behind the others. -/
theorem carries_append (ack : Bool) {replies : List (ℕ × List UInt8)} {k : ℕ}
    {answers : List (List UInt8)} (h : List.Forall₂ Carries a.replies replies)
    (hans : ∀ reply ∈ answers, IsReply (if ack then .ack else .nack) k reply) :
    List.Forall₂ Carries (a.replies ++ List.replicate answers.length ⟨ack, k⟩)
      (replies ++ answers.map fun reply => (k, reply)) := by
  refine List.rel_append h ?_
  induction answers with
  | nil => exact List.Forall₂.nil
  | cons reply answers ih =>
    rw [List.length_cons, List.replicate_succ, List.map_cons]
    exact List.Forall₂.cons ⟨rfl, hans reply List.mem_cons_self⟩
      (ih fun r hr => hans r (List.mem_cons_of_mem reply hr))

theorem Linked.deliver {dangling : Pkt} (h : Linked chunks s a)
    (hs : step s (.deliver dangling) = some s') :
    ∃ a', Relation.ReflTransGen (Arq.Step 31 chunks.length) a a' ∧ Linked chunks s' a' := by
  obtain ⟨frame, rest, hd, hfifo', -⟩ := h.fifo.deliver hs
  obtain ⟨frame', rest', hd', hopen, heq⟩ := step_deliver hs
  rw [hd, List.cons.injEq] at hd'
  obtain ⟨rfl, rfl⟩ := hd'
  have hhead : a.data = frame.1 :: rest.map Prod.fst := by
    rw [h.data, Sys.inFlight, hd, List.map_cons]
  have hdelivered := hfifo'.inv.received.delivered_eq
  -- the replies of the turn are ACKs with what is delivered then
  obtain ⟨pkt, hpkt, hwire, hlt, hlate, hearly⟩ := h.fifo.inv.head hd
  have htotal := h.fifo.inv.total_eq
  have hans := (Received.turn (h.fifo.inv.received.represents hopen) hpkt (fun i hi => by
    have := h.fifo.inv.lt_total i (Or.inl hi)
    omega) (by omega) (by omega) hearly dangling).2
  rw [← hwire] at hans
  rw [heq] at hdelivered
  have hreplies := carries_append true h.replies hans
  have harrive := Arq.Step.arrive (W := 31) frame.1 (rest.map Prod.fst)
    (receive dangling s.receiver frame.2).2.length hhead (h.fifo.absent hopen)
  refine ⟨_, Relation.ReflTransGen.single harrive, hfifo', ?_, ?_, ?_, ?_⟩
  · rw [heq]
    exact h.acked
  · rw [heq]
    rfl
  · rw [heq, ← hdelivered]
    exact hreplies
  · rw [heq]
    exact h.finished

theorem Linked.damagedData {dangling : Pkt} {datagram : List UInt8} (h : Linked chunks s a)
    (hs : step s (.damagedData dangling datagram) = some s') :
    ∃ a', Relation.ReflTransGen (Arq.Step 31 chunks.length) a a' ∧ Linked chunks s' a' := by
  have hfifo' := h.fifo.damagedData hs
  obtain ⟨frame, rest, reply, hd, -, -, hreply, heq⟩ := h.fifo.inv.damagedData hs
  have hhead : a.data = frame.1 :: rest.map Prod.fst := by
    rw [h.data, Sys.inFlight, hd, List.map_cons]
  have hans : ∀ r ∈ [reply], IsReply .nack s.receiver.delivered r :=
    fun r hr => List.mem_singleton.mp hr ▸ hreply
  have hreplies := carries_append false h.replies hans
  rw [h.fifo.inv.received.delivered_eq] at hreplies
  refine ⟨_, Relation.ReflTransGen.single (Arq.Step.refuse _ _ hhead), hfifo', ?_, ?_, ?_, ?_⟩
  · rw [heq]
    exact h.acked
  · rw [heq]
    rfl
  · rw [heq, h.fifo.inv.received.delivered_eq]
    exact hreplies
  · rw [heq]
    exact h.finished

/-! ## Runs -/

/-- **The step**, one case for each event. -/
theorem linked_step : Simulates step (fun _ e _ => e.InOrder) (Arq.Step 31 chunks.length)
    (Linked chunks) := by
  intro s e s' a h he hs
  cases e with
  | transmit now => exact h.transmit hs
  | reply i junk =>
    obtain rfl : i = 0 := he
    exact h.reply hs
  | damagedReply i datagram junk => exact h.damagedReply hs
  | idle clock => exact h.idle hs
  | deliver dangling => exact h.deliver hs
  | damagedData dangling datagram => exact h.damagedData hs
  | loseData i =>
    rw [step, Option.some.injEq] at hs
    subst hs
    exact ⟨_, (exists_data h.data i).1,
      h.fifo.network (h.fifo.inv.loseData i) (fun _ hf => hf) h.fifo.order, h.acked, rfl,
      h.replies, h.finished⟩
  | dupData i =>
    rw [step, Option.some.injEq] at hs
    subst hs
    exact ⟨_, (exists_data h.data i).2,
      h.fifo.network (h.fifo.inv.dupData i) (fun _ hf => hf) h.fifo.order, h.acked, rfl,
      h.replies, h.finished⟩
  | loseReply i =>
    rw [step, Option.some.injEq] at hs
    subst hs
    have hsub := List.eraseIdx_sublist s.replies i
    obtain ⟨rs, hrun, hrs⟩ := exists_loseReply chunks.length h.replies i
    exact ⟨_, hrun, h.fifo.network (h.fifo.inv.loseReplies fun f hf => hsub.subset hf)
      (fun f hf => hsub.subset hf) (h.fifo.order.sublist (hsub.map _)), h.acked, h.data, hrs,
      h.finished⟩
  | dupReply i =>
    rw [step, Option.some.injEq] at hs
    subst hs
    obtain ⟨rs, hrun, hrs⟩ := exists_dupReply chunks.length h.replies i
    exact ⟨_, hrun, h.fifo.dupReply i, h.acked, h.data, hrs, h.finished⟩

/-- **The programs implement the protocol**: a run in order, and one that goes on behind it, are
matched by a run of the protocol and one that goes on behind that. -/
theorem refines_unbounded (chunks : List Chunk) (buf : Buffer) {es es' : List Event}
    (hes : ∀ e ∈ es ++ es', e.InOrder) {s s' : Sys}
    (hs : exec step (Sys.start chunks buf) es = some s) (hs' : exec step s es' = some s') :
    ∃ a a', Relation.ReflTransGen (Arq.Step 31 chunks.length) Arq.start a ∧
      Relation.ReflTransGen (Arq.Step 31 chunks.length) a a' ∧
      Implements chunks s a ∧ Implements chunks s' a' := by
  obtain ⟨a, hrun, hlinked⟩ := linked_step.run (linked_start chunks buf)
    (Along.of_forall fun e he => hes e (List.mem_append_left es' he)) hs
  obtain ⟨a', hrun', hlinked'⟩ := linked_step.run hlinked
    (Along.of_forall fun e he => hes e (List.mem_append_right es he)) hs'
  exact ⟨a, a', hrun, hrun', hlinked.implements, hlinked'.implements⟩

end Unbounded

/-- A frame lost, sent again and repeated. -/
def lossyFirst : List Event :=
  [.transmit 1, .loseData 0, .idle fun _ => 6, .transmit 6, .dupData 0, .deliver pktNew]

/-- Its reply repeated and damaged, the second packet, the frame that was repeated. -/
def lossySecond : List Event :=
  [.dupReply 0, .damagedReply 0 [] cleared, .transmit 6, .reply 0 cleared, .transmit 6,
    .deliver pktNew]

set_option maxRecDepth 8000 in
open Zlib.Standard in
theorem lossy_runs :
    (exec step (Sys.start (fileOf 1) cleared) (lossyFirst ++ lossySecond)).isSome := by
  decide +kernel

open Zlib.Standard in
/-- Both parts of a run with losses and repetitions. -/
theorem refines_unbounded_lossy :
    ∃ s s', exec step (Sys.start (fileOf 1) cleared) lossyFirst = some s ∧
      exec step s lossySecond = some s' ∧
      ∃ a a', Relation.ReflTransGen (Arq.Step 31 (fileOf 1).length) Arq.start a ∧
        Relation.ReflTransGen (Arq.Step 31 (fileOf 1).length) a a' ∧
        Implements (fileOf 1) s a ∧ Implements (fileOf 1) s' a' := by
  obtain ⟨s', hrun⟩ := Option.isSome_iff_exists.mp lossy_runs
  obtain ⟨s, hs, hs'⟩ := exec_append_inv hrun
  exact ⟨s, s', hs, hs', refines_unbounded (fileOf 1) cleared (by decide) hs hs'⟩

section Forward

variable [Zlib]

/-- The second state is not behind the first, and the receiver not far in front of the sender. -/
structure NotBehind (s s' : Sys) : Prop where
  acked : s.acked ≤ s'.acked
  delivered : s.receiver.delivered ≤ s'.receiver.delivered
  written : s.receiver.output.flatten <+: s'.receiver.output.flatten
  success : s.sender.pc = .success → s'.sender.pc = .success
  closed : s.receiver.closed = true → s'.receiver.closed = true
  window : s'.acked ≤ s'.receiver.delivered ∧ s'.receiver.delivered ≤ s'.acked + 31

/-- **The transfer only goes forward.** -/
theorem forward_only (chunks : List Chunk) (buf : Buffer) {es es' : List Event}
    (hes : ∀ e ∈ es ++ es', e.InOrder) {s s' : Sys}
    (hs : exec step (Sys.start chunks buf) es = some s) (hs' : exec step s es' = some s') :
    NotBehind s s' := by
  obtain ⟨a, hrun, hlinked⟩ := linked_step.run (linked_start chunks buf)
    (Along.of_forall fun e he => hes e (List.mem_append_left es' he)) hs
  obtain ⟨a', hrun', hlinked'⟩ := linked_step.run hlinked
    (Along.of_forall fun e he => hes e (List.mem_append_right es he)) hs'
  have hforward := Arq.forward_run hrun'
  have hwindow := (Arq.inv_run (hrun.trans hrun')).next_le
  have himpl := hlinked.implements
  have himpl' := hlinked'.implements
  have hdelivered := next_mono hforward.got
  rw [← himpl.received.delivered_eq, ← himpl'.received.delivered_eq] at hdelivered
  rw [himpl'.acked, ← himpl'.received.delivered_eq] at hwindow
  refine ⟨himpl.acked ▸ himpl'.acked ▸ hforward.acked, hdelivered, ?_, fun hdone => ?_,
    fun hclosed => ?_, hwindow⟩
  · -- the payloads of the first packets
    rw [himpl.received.flatten_output, himpl'.received.flatten_output]
    obtain ⟨k, hk⟩ := Nat.exists_eq_add_of_le hdelivered
    rw [hk, List.range_add, List.map_append, List.flatten_append]
    exact List.prefix_append _ _
  · exact himpl'.finished.mp (hforward.finished (himpl.finished.mpr hdone))
  · exact himpl'.closed.mpr (hforward.got (himpl.closed.mp hclosed))

end Forward

open Zlib.Standard in
/-- From the first part of that run to its end. -/
theorem forward_only_lossy :
    ∃ s s', exec step (Sys.start (fileOf 1) cleared) lossyFirst = some s ∧
      exec step s lossySecond = some s' ∧ NotBehind s s' := by
  obtain ⟨s', hrun⟩ := Option.isSome_iff_exists.mp lossy_runs
  obtain ⟨s, hs, hs'⟩ := exec_append_inv hrun
  exact ⟨s, s', hs, hs', forward_only (fileOf 1) cleared (by decide) hs hs'⟩

end Trtp
