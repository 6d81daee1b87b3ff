import Trtp.Lib.Fair
import Trtp.Sender.Retry
import Trtp.System.Clean
import Trtp.System.Recovery
import Trtp.System.Unbounded

/-!
# Every fair run ends, or stands (`read_write_loop_sender.c:87-221`)

`Recovery` says that every transfer can still be completed. Here: that it is, without a choice of
the steps, when the network does not lose the same thing for ever. A run is endless, and stays where
it is when nothing happens any more.

* `Fair`: the sender goes on, the timer of a first packet that was sent and stays is found over
  again, and a kind of datagram that is sent again and again arrives.
* `level` never falls and has a ceiling: a run ends, or comes to stand at a packet (`Stands`).
* `Stands.resends`, `Stands.answers`, `Stands.elim`: a first packet that was sent is sent again and
  again, and so is an ACK of it, so that it is acknowledged.
* `fair_completes`: **every fair run that keeps to the condition of `not_stuck` ends the sender's
  loop in success, with the whole file written**, whatever is lost, repeated or damaged.
* `Stands.silent`: in front of a first packet that was never sent, every transmission takes `room`.
* `fair_ends_or_stands`: **without that condition, a fair run ends so, or is silent for ever in
  front of a packet that was never sent**.
-/

namespace Trtp

open Trtp.Run Trtp.Reassembly Filter

variable {chunks : List Chunk} {s s' : Sys} {e : Event} {run : ℕ → Sys}
  {event : ℕ → Option Event}

section Fair

variable [Zlib]

/-! ## What no step takes back -/

theorem respond_lastpacketsSentCount (t : Sender) (datagram : List UInt8) (junk : Buffer) :
    (respond t (some datagram) junk).lastpacketsSentCount = t.lastpacketsSentCount := by
  rw [respond_some, endIteration_lastpacketsSentCount]
  rcases processResponse_cases t datagram junk with
    ⟨packet, -, -, hres⟩ | ⟨packet, -, -, hres⟩ | ⟨code, -, -, -, hres⟩
  · rw [hres, processAck_eq]
    obtain ⟨counter, hcount | ⟨-, hcount⟩⟩ := countAck_eq t packet
    · rw [hcount]
    · rw [hcount]
  · rw [hres, processNack_eq]
  · rw [hres]

/-- The timeouts of the last packet are counted for ever. -/
theorem lastpacketsSentCount_mono (hs : step s e = some s') :
    s.sender.lastpacketsSentCount ≤ s'.sender.lastpacketsSentCount := by
  cases e with
  | transmit now =>
    obtain ⟨-, -, rfl⟩ := step_transmit hs
    exact (transmit_lastpacketsSentCount now s.sender).ge
  | reply i junk =>
    obtain ⟨frame, -, -, rfl⟩ := step_reply hs
    exact (respond_lastpacketsSentCount s.sender frame.2 junk).ge
  | damagedReply i datagram junk =>
    obtain ⟨-, -, rfl⟩ := step_damagedReply hs
    exact (respond_lastpacketsSentCount s.sender datagram junk).ge
  | idle clock =>
    obtain ⟨-, rfl⟩ := step_idle hs
    rcases wakeUp_cases clock s.sender with ⟨runner, -, hw⟩ | hw | hw
    · rw [hw, endIteration_lastpacketsSentCount]
      unfold Sender.expire
      split <;> simp
    · rw [hw]
    · rw [hw, endIteration_lastpacketsSentCount]
  | deliver dangling =>
    obtain ⟨frame, rest, -, -, rfl⟩ := step_deliver hs
    exact le_refl _
  | damagedData dangling datagram =>
    obtain ⟨frame, rest, -, -, -, rfl⟩ := step_damagedData hs
    exact le_refl _
  | loseData i => exact Option.some.inj hs ▸ le_refl _
  | dupData i => exact Option.some.inj hs ▸ le_refl _
  | loseReply i => exact Option.some.inj hs ▸ le_refl _
  | dupReply i => exact Option.some.inj hs ▸ le_refl _

theorem Fifo.acked_mono {S : Finset ℕ} (h : Fifo chunks S s) (he : e.InOrder)
    (hs : step s e = some s') : s.acked ≤ s'.acked := by
  cases e with
  | transmit now => exact (h.inv.transmit hs).2.ge
  | reply i junk =>
    obtain rfl : i = 0 := he
    obtain ⟨frame, hframe, -, -⟩ := step_reply hs
    have hmem := List.mem_of_getElem? hframe
    rcases (h.inv.replies frame hmem).2 with hack | hnack
    · exact (h.fresh frame hmem).trans (h.acked_ack hframe hack hs).ge
    · exact (acked_nack hframe hnack hs).ge
  | damagedReply i datagram junk =>
    obtain ⟨-, hrej, heq⟩ := step_damagedReply hs
    refine (acked_congr (by rw [heq]) ?_).ge
    rw [heq, respond_rejected hrej, endIteration_sendingStack]
  | idle clock =>
    obtain ⟨-, heq⟩ := step_idle hs
    exact (acked_congr (by rw [heq]) (by rw [heq]; exact (wakeUp_keeps clock s.sender).1)).ge
  | deliver dangling =>
    obtain ⟨frame, rest, -, -, rfl⟩ := step_deliver hs
    exact le_refl _
  | damagedData dangling datagram =>
    obtain ⟨frame, rest, -, -, -, rfl⟩ := step_damagedData hs
    exact le_refl _
  | loseData i => exact Option.some.inj hs ▸ le_refl _
  | dupData i => exact Option.some.inj hs ▸ le_refl _
  | loseReply i => exact Option.some.inj hs ▸ le_refl _
  | dupReply i => exact Option.some.inj hs ▸ le_refl _

/-- What the receiver answers goes behind the replies in flight. -/
theorem replies_deliver {dangling : Pkt} (hs : step s (.deliver dangling) = some s') :
    s'.replies = s.replies ++ s.answers (.deliver dangling) := by
  obtain ⟨frame, rest, hd, -, rfl⟩ := step_deliver hs
  rw [Sys.answers, hd]
  rfl

/-- What was acknowledged, and the timeouts of the last packet up to the sixth. -/
def level (s : Sys) : ℕ := s.acked + min s.sender.lastpacketsSentCount 6

theorem Fifo.level_mono {S : Finset ℕ} (h : Fifo chunks S s) (he : e.InOrder)
    (hs : step s e = some s') : level s ≤ level s' := by
  have hacked := h.acked_mono he hs
  have hcount := lastpacketsSentCount_mono hs
  unfold level
  omega

theorem Fifo.level_le {S : Finset ℕ} (h : Fifo chunks S s) : level s ≤ chunks.length + 7 := by
  have hsum := h.length_eq
  unfold level
  omega

/-- A first packet that was sent stays sent. -/
theorem Fifo.sentAt_step {S S' : Finset ℕ} (h : Fifo chunks S s) (h' : Fifo chunks S' s')
    (hs : step s e = some s') (hsame : s'.acked = s.acked)
    (hsent : SentAt s.sender.sendingStack 0) : SentAt s'.sender.sendingStack 0 := by
  have hsum := h.length_eq
  have hsum' := h'.length_eq
  -- a reply that leaves the number of packets leaves the stack
  have hrespond : ∀ {datagram junk},
      s'.sender.sendingStack = (respond s.sender (some datagram) junk).sendingStack →
        SentAt s'.sender.sendingStack 0 := by
    intro datagram junk heq
    obtain ⟨k, hk, hdrop, -, -⟩ := respond_drops h.base.base.holds (some datagram) junk
    have hlen := congrArg List.length (heq.trans hdrop)
    rw [List.length_drop] at hlen
    obtain rfl : k = 0 := by omega
    rw [heq, hdrop]
    exact hsent
  cases e with
  | transmit now =>
    obtain ⟨-, hnow, rfl⟩ := step_transmit hs
    rcases transmit_cases now s.sender with hnone | ⟨pkt, -, hget, hsome⟩
    · simp only [hnone]
      exact hsent
    · obtain ⟨-, -, -, -, hiff⟩ := sendNext_sent h.base.base.holds hnow hget
      simp only [hsome]
      exact (hiff 0).mpr (Or.inr hsent)
  | reply i junk =>
    obtain ⟨frame, -, -, heq⟩ := step_reply hs
    exact hrespond (by rw [heq])
  | damagedReply i datagram junk =>
    obtain ⟨-, -, heq⟩ := step_damagedReply hs
    exact hrespond (by rw [heq])
  | idle clock =>
    obtain ⟨-, rfl⟩ := step_idle hs
    simp only [(wakeUp_keeps clock s.sender).1]
    exact hsent
  | deliver dangling =>
    obtain ⟨frame, rest, -, -, rfl⟩ := step_deliver hs
    exact hsent
  | damagedData dangling datagram =>
    obtain ⟨frame, rest, -, -, -, rfl⟩ := step_damagedData hs
    exact hsent
  | loseData i => exact Option.some.inj hs ▸ hsent
  | dupData i => exact Option.some.inj hs ▸ hsent
  | loseReply i => exact Option.some.inj hs ▸ hsent
  | dupReply i => exact Option.some.inj hs ▸ hsent

/-! ## Fairness -/

/-- What the sender's machine and the network owe a run. The timer is that of the first packet, and
owed while that packet was sent and stays; a datagram that keeps being sent is owed to a program
that still reads. -/
structure Fair (run : ℕ → Sys) (event : ℕ → Option Event) : Prop where
  moves : ∀ i, ∃ j, i ≤ j ∧ (run j).sender.pc ≠ .top
  timer : ∀ i, (∀ j, i ≤ j → (run j).sender.pc ≠ .success ∧ (run j).acked = (run i).acked ∧
      SentAt (run j).sender.sendingStack 0) →
    ∃ j, i ≤ j ∧ ∃ clock, event j = some (.idle clock) ∧
      Overdue clock (run j).sender.sendingStack
  data : ∀ P : ℕ × List UInt8 → Prop,
    (∃ᶠ i in atTop, ∃ e ∈ event i, ∃ frame ∈ (run i).sends e, P frame) →
      (∃ i, (run i).receiver.closed = true) ∨
        ∃ᶠ i in atTop, ∃ dangling, event i = some (.deliver dangling) ∧
          ∃ frame ∈ (run i).data.head?, P frame
  replies : ∀ P : ℕ × List UInt8 → Prop,
    (∃ᶠ i in atTop, ∃ e ∈ event i, ∃ frame ∈ (run i).answers e, P frame) →
      (∃ i, (run i).sender.pc = .success) ∨
        ∃ᶠ i in atTop, ∃ junk, event i = some (.reply 0 junk) ∧
          ∃ frame ∈ (run i).replies[0]?, P frame

/-- From moment `i` on the run stands at packet `a`: it is never acknowledged, nor the loop left. -/
structure Stands (chunks : List Chunk) (run : ℕ → Sys) (event : ℕ → Option Event) (i a : ℕ) :
    Prop where
  endless : Endless step (fun _ e _ => e.InOrder) run event
  live : ∀ j, ∃ S, Fifo chunks S (run j)
  running : ∀ j, (run j).sender.pc ≠ .success
  below : ∀ j, (run j).acked ≤ a
  stays : ∀ j, i ≤ j → (run j).acked = a
  counted : ∀ j, i ≤ j →
    min (run j).sender.lastpacketsSentCount 6 = min (run i).sender.lastpacketsSentCount 6

variable {i a : ℕ}

theorem Stands.later {k : ℕ} (h : Stands chunks run event i a) (hik : i ≤ k) :
    Stands chunks run event k a :=
  ⟨h.endless, h.live, h.running, h.below, fun j hkj => h.stays j (hik.trans hkj),
    fun j hkj => (h.counted j (hik.trans hkj)).trans (h.counted k hik).symm⟩

/-- At the head of its loop, the sender only goes on by the first part of an iteration. -/
theorem sender_of_top (htop : s.sender.pc = .top) (hnot : ∀ now, e ≠ .transmit now)
    (hs : step s e = some s') : s'.sender = s.sender ∧ s'.total = s.total := by
  cases e with
  | transmit now => exact absurd rfl (hnot now)
  | reply i junk =>
    obtain ⟨frame, -, hwait, -⟩ := step_reply hs
    exact absurd (htop.symm.trans hwait) (by simp)
  | damagedReply i datagram junk =>
    obtain ⟨hwait, -, -⟩ := step_damagedReply hs
    exact absurd (htop.symm.trans hwait) (by simp)
  | idle clock =>
    obtain ⟨hwait, -⟩ := step_idle hs
    exact absurd (htop.symm.trans hwait) (by simp)
  | deliver dangling =>
    obtain ⟨frame, rest, -, -, rfl⟩ := step_deliver hs
    exact ⟨rfl, rfl⟩
  | damagedData dangling datagram =>
    obtain ⟨frame, rest, -, -, -, rfl⟩ := step_damagedData hs
    exact ⟨rfl, rfl⟩
  | loseData i => exact ⟨Option.some.inj hs ▸ rfl, Option.some.inj hs ▸ rfl⟩
  | dupData i => exact ⟨Option.some.inj hs ▸ rfl, Option.some.inj hs ▸ rfl⟩
  | loseReply i => exact ⟨Option.some.inj hs ▸ rfl, Option.some.inj hs ▸ rfl⟩
  | dupReply i => exact ⟨Option.some.inj hs ▸ rfl, Option.some.inj hs ▸ rfl⟩

/-- A retransmission stays due until it is made. -/
theorem Due.keep (h : Due s) (hnot : ∀ now, e ≠ .transmit now) (hs : step s e = some s') :
    Due s' := by
  obtain ⟨hsender, htotal⟩ := sender_of_top h.top hnot hs
  have hacked : s'.acked = s.acked := acked_congr htotal (by rw [hsender])
  exact ⟨hsender ▸ h.top, by rw [hsender, hacked]; exact h.names, hsender ▸ h.flagged⟩

/-- A retransmission that is due is made. -/
theorem Stands.makes {j : ℕ} (h : Stands chunks run event i a) (hfair : Fair run event)
    (hij : i ≤ j) (hdue : Due (run j)) :
    ∃ k, j ≤ k ∧ ∃ now, event k = some (.transmit now) ∧
      ∃ frame ∈ (run k).sends (.transmit now), frame.1 = a := by
  obtain ⟨l, hl, htop⟩ := hfair.moves j
  obtain ⟨k, hjk, hdue', e, he, now, rfl⟩ := h.endless.occurs (W := Due)
    (E := fun e => ∃ now, e = .transmit now)
    (fun s e s' hW hnot _ hs => hW.keep (fun now hnow => hnot ⟨now, hnow⟩) hs) hdue
    ⟨l, hl, fun hW => htop hW.top⟩
  obtain ⟨S, hp⟩ := h.live k
  obtain ⟨datagram, hsend, htag⟩ := hp.due_sends hdue' now
  refine ⟨k, hjk, now, he, ((run k).toSend, datagram), ?_, ?_⟩
  · rw [Sys.sends, hsend]
    exact List.mem_singleton.mpr rfl
  · exact htag.trans (h.stays k (by omega))

/-! ## A first packet that was sent -/

section Sent

variable (h : Stands chunks run event i a) (hfair : Fair run event)
  (hsent : ∀ j, i ≤ j → SentAt (run j).sender.sendingStack 0)

include h hfair hsent

/-- Its timer is found over again and again. -/
theorem Stands.expires :
    ∃ᶠ j in atTop, i ≤ j ∧ ∃ clock, event j = some (.idle clock) ∧
      Overdue clock (run j).sender.sendingStack := by
  rw [frequently_atTop]
  intro k
  obtain ⟨j, hj, hexpire⟩ := hfair.timer (max i k) fun j hj =>
    ⟨h.running j, by rw [h.stays j (by omega), h.stays _ (by omega)], hsent j (by omega)⟩
  exact ⟨j, by omega, by omega, hexpire⟩

/-- **It is sent again and again.** -/
theorem Stands.resends :
    ∃ᶠ j in atTop, ∃ e ∈ event j, ∃ frame ∈ (run j).sends e, frame.1 = a := by
  refine frequently_later (h.expires hfair hsent) ?_
  rintro j ⟨hij, clock, hevent, hover⟩
  obtain ⟨S, hp⟩ := h.live j
  obtain ⟨-, hs⟩ := h.endless.step_of hevent
  obtain ⟨-, hdone | ⟨hdue, -⟩⟩ := hp.expire (hsent j hij) hover hs
  · exact absurd hdone (h.running (j + 1))
  · obtain ⟨k, hjk, now, he, hframe⟩ := h.makes hfair (by omega) hdue
    exact ⟨k, by omega, _, he, hframe⟩

/-- **An ACK of it is sent again and again.** -/
theorem Stands.answers (hlt : a < chunks.length) :
    ∃ᶠ j in atTop, ∃ e ∈ event j, ∃ frame ∈ (run j).answers e,
      a < frame.1 ∧ IsReply .ack frame.1 frame.2 := by
  rcases hfair.data (fun frame => frame.1 = a) (h.resends hfair hsent) with
    ⟨j, hclosed⟩ | harrive
  · -- the receiver is in its loop
    obtain ⟨S, hp⟩ := h.live j
    have hopen := hp.open_of_lt ((h.below j).trans_lt hlt)
    rw [hclosed] at hopen
    exact absurd hopen (by simp)
  · refine (harrive.and_eventually (eventually_ge_atTop i)).mono ?_
    rintro j ⟨⟨dangling, hevent, frame, hframe, htag⟩, hij⟩
    obtain ⟨S, hp⟩ := h.live j
    have hacked := h.stays j hij
    obtain ⟨rest, hd⟩ := List.head?_eq_some_iff.mp hframe
    have hdata : (run j).data = ((run j).acked, frame.2) :: rest := by
      rw [hd, hacked, ← htag]
    obtain ⟨s', reply, hs, -, -, -, -, -, hreplies, hack⟩ :=
      hp.answer_first (hacked ▸ hlt) hdata dangling
    have hanswers := List.append_cancel_left ((replies_deliver hs).symm.trans hreplies)
    refine ⟨_, hevent, (next (absorb 31 S (run j).acked), reply), ?_, ?_, hack⟩
    · rw [hanswers]
      exact List.mem_singleton.mpr rfl
    · exact hacked ▸ hp.lt_next

/-- The run does not stand at a packet with payload. -/
theorem Stands.length_le : chunks.length ≤ a := by
  by_contra hlt
  rcases hfair.replies (fun frame => a < frame.1 ∧ IsReply .ack frame.1 frame.2)
    (h.answers hfair hsent (not_le.mp hlt)) with ⟨j, hdone⟩ | harrive
  · exact h.running j hdone
  · obtain ⟨j, hij, junk, hevent, frame, hframe, hmore, hack⟩ :=
      (frequently_atTop.mp harrive) i
    obtain ⟨S, hp⟩ := h.live j
    obtain ⟨-, hs⟩ := h.endless.step_of hevent
    have hnext := hp.acked_ack hframe hack hs
    have hstay := h.stays (j + 1) (by omega)
    omega

/-- **It stands nowhere**, at the last packet neither: its timeouts are counted. -/
theorem Stands.elim : False := by
  obtain ⟨j, -, hij, clock, hevent, hover⟩ := (frequently_atTop.mp (h.expires hfair hsent)) i
  obtain ⟨S, hp⟩ := h.live j
  obtain ⟨-, hs⟩ := h.endless.step_of hevent
  obtain ⟨-, hdone | ⟨-, hcount⟩⟩ := hp.expire (hsent j hij) hover hs
  · exact h.running (j + 1) hdone
  · have hlast := h.length_le hfair hsent
    have hacked := h.stays j hij
    have hsum := hp.length_eq
    have hpos := List.length_pos_iff.mpr (hp.ends.busy (h.running j))
    obtain ⟨hone, hle⟩ := hcount (by omega)
    have h1 := h.counted j hij
    have h2 := h.counted (j + 1) (by omega)
    omega

end Sent

/-- **Where a fair run stands, the first packet was never sent.** -/
theorem Stands.unsent (h : Stands chunks run event i a) (hfair : Fair run event) :
    ∀ j, i ≤ j → ¬ SentAt (run j).sender.sendingStack 0 := by
  intro j hij hsent
  refine (h.later hij).elim hfair (Nat.le_induction hsent fun k hjk ih => ?_)
  rcases h.endless k with ⟨-, heq⟩ | ⟨e, -, -, hs⟩
  · exact heq ▸ ih
  · obtain ⟨S, hp⟩ := h.live k
    obtain ⟨S', hp'⟩ := h.live (k + 1)
    exact hp.sentAt_step hp' hs (by rw [h.stays k (by omega), h.stays (k + 1) (by omega)]) ih

/-- A run whose level does not change any more stands. -/
theorem stands_of_level (hrun : Endless step (fun _ e _ => e.InOrder) run event)
    (hlive : ∀ j, ∃ S, Fifo chunks S (run j)) (hnever : ∀ j, (run j).sender.pc ≠ .success)
    (hlevel : ∀ j, i ≤ j → level (run j) = level (run i)) :
    Stands chunks run event i (run i).acked := by
  have hacked : Monotone fun j => (run j).acked :=
    hrun.monotone (I := fun s => ∃ S, Fifo chunks S s) hlive
      fun s e s' ⟨S, hp⟩ he hs => hp.acked_mono he hs
  have hcount : Monotone fun j => (run j).sender.lastpacketsSentCount :=
    hrun.monotone (I := fun _ => True) (V := fun s => s.sender.lastpacketsSentCount)
      (fun _ => trivial) fun s e s' _ _ hs => lastpacketsSentCount_mono hs
  have hsame : ∀ j, i ≤ j → (run j).acked = (run i).acked ∧
      min (run j).sender.lastpacketsSentCount 6 = min (run i).sender.lastpacketsSentCount 6 := by
    intro j hij
    have h1 : (run i).acked ≤ (run j).acked := hacked hij
    have h2 : (run i).sender.lastpacketsSentCount ≤ (run j).sender.lastpacketsSentCount :=
      hcount hij
    have h3 := hlevel j hij
    unfold level at h3
    omega
  refine ⟨hrun, hlive, hnever, fun j => ?_, fun j hij => (hsame j hij).1,
    fun j hij => (hsame j hij).2⟩
  rcases Nat.le_total i j with hij | hji
  · exact (hsame j hij).1.le
  · exact hacked hji

/-- **A run over FIFO channels ends, or stands.** -/
theorem exists_success_or_stands (chunks : List Chunk) (buf : Buffer)
    (hstart : run 0 = Sys.start chunks buf)
    (hrun : Endless step (fun _ e _ => e.InOrder) run event) :
    (∃ i, (run i).sender.pc = .success ∧
      (run i).receiver.output.flatten = (chunks.map Subtype.val).flatten) ∨
      ∃ i, Stands chunks run event i (run i).acked := by
  have hlive : ∀ i, ∃ S, Fifo chunks S (run i) := by
    refine hrun.inv (I := fun s => ∃ S, Fifo chunks S s) ?_ ⟨∅, hstart ▸ fifo_start chunks buf⟩
    rintro s e s' ⟨S, hp⟩ he hs
    exact fifo_step hp he hs
  by_cases hnever : ∀ j, (run j).sender.pc ≠ .success
  · obtain ⟨i, hlevel⟩ := exists_stable
      (hrun.monotone (I := fun s => ∃ S, Fifo chunks S s) (V := level) hlive
        fun s e s' ⟨S, hp⟩ he hs => hp.level_mono he hs)
      (fun i => (hlive i).elim fun S hp => hp.level_le)
    exact Or.inr ⟨i, stands_of_level hrun hlive hnever hlevel⟩
  · push Not at hnever
    obtain ⟨i, hdone⟩ := hnever
    obtain ⟨S, hp⟩ := hlive i
    exact Or.inl ⟨i, hdone, hp.transfer.sender_end (Or.inl hdone)⟩

/-- **Every fair run ends.** Whatever is lost, repeated or damaged on the way: where a datagram that
is sent again and again arrives, and timers are found over, the sender's loop ends in success with
the whole file written. -/
theorem fair_completes (chunks : List Chunk) (buf : Buffer)
    (hstart : run 0 = Sys.start chunks buf)
    (hrun : Endless step (fun s e _ => e.InOrder ∧ AckFollows s e) run event)
    (hfair : Fair run event) :
    ∃ i, (run i).sender.pc = .success ∧
      (run i).receiver.output.flatten = (chunks.map Subtype.val).flatten := by
  rcases exists_success_or_stands chunks buf hstart (hrun.weaken fun _ _ _ hok => hok.1) with
    hdone | ⟨i, hstands⟩
  · exact hdone
  -- in the inner loop the first packet was sent
  have hlive : ∀ i, ∃ S, Progress chunks S (run i) := by
    refine hrun.inv (I := fun s => ∃ S, Progress chunks S s) ?_
      ⟨∅, hstart ▸ progress_start chunks buf⟩
    rintro s e s' ⟨S, hp⟩ ⟨he, hok⟩ hs
    exact progress_step hp he hok hs
  obtain ⟨j, hij, htop⟩ := hfair.moves i
  obtain ⟨S, hp⟩ := hlive j
  have hwait : (run j).sender.pc = .wait := by
    cases hpc : (run j).sender.pc with
    | top => exact absurd hpc htop
    | wait => rfl
    | success => exact absurd hpc (hstands.running j)
    | failure => exact absurd hpc hp.fifo.ends.running
  exact absurd (hp.waiting hwait) (hstands.unsent hfair j hij)

/-! ## A first packet that was never sent -/

/-- The packets the sender may still send: one that is asked for, and those up to the end of its
window. -/
def room (s : Sys) : ℕ :=
  if s.sender.flagged then 32 else 31 - offset (UInt8.ofNat s.acked) s.sender.seqnumToSend

omit [Zlib] in
theorem room_congr (hseq : s'.sender.seqnumToSend = s.sender.seqnumToSend)
    (hflag : s'.sender.flagged = s.sender.flagged) (hacked : s'.acked = s.acked) :
    room s' = room s := by
  rw [room, room, hseq, hflag, hacked]

omit [Zlib] in
theorem room_le (s : Sys) : room s ≤ 32 := by
  unfold room
  split <;> omega

omit [Zlib] in
theorem advance_seqnumToSend {t : Sender} (h : t.flagged = false) :
    t.advance.seqnumToSend = incrementSeqnum t.seqnumToSend := by
  rw [Sender.advance, if_neg (by rw [h]; simp)]

/-- A transmission takes room. -/
theorem Fifo.room_transmit {S : Finset ℕ} {now : UInt32} (h : Fifo chunks S s)
    (hs : step s (.transmit now) = some s') :
    room s' + (s.sends (.transmit now)).length ≤ room s := by
  obtain ⟨-, hacked⟩ := h.inv.transmit hs
  obtain ⟨htop, -, heq⟩ := step_transmit hs
  have hsender : s'.sender = (Trtp.transmit now s.sender).1 := by rw [heq]
  rcases transmit_cases now s.sender with hnone | ⟨pkt, hmay, -, hsome⟩
  · rw [hnone] at hsender
    rw [Sys.sends, hnone, room_congr (by rw [hsender]) (by rw [hsender]; rfl) hacked]
    exact le_refl _
  · rw [hsome] at hsender
    have hflag' : s'.sender.flagged = false := by
      rw [hsender]
      exact (advance_restores _).1
    have hone : (s.sends (.transmit now)).length = 1 := by
      rw [Sys.sends, hsome]
      rfl
    rw [hone, room, room, hflag', if_neg (by simp), hacked]
    cases hflag : s.sender.flagged with
    | true =>
      rw [if_pos rfl]
      omega
    | false =>
      have hseq' : s'.sender.seqnumToSend = incrementSeqnum s.sender.seqnumToSend := by
        rw [hsender]
        exact advance_seqnumToSend hflag
      have hin := hmay.inRange
      rw [isInRange, inWindow_iff, h.base.base.base_eq (h.ends.busy (by rw [htop]; simp))] at hin
      rw [if_neg (by simp), hseq', ← ofNat_add_offset s.acked s.sender.seqnumToSend,
        incrementSeqnum_ofNat, offset_ofNat_of_le (by omega) (by omega),
        offset_ofNat_of_le (by omega) (by omega)]
      omega

/-- **A reply asks for the first packet**, or leaves what may be sent. -/
theorem Fifo.room_reply {S : Finset ℕ} {junk : Buffer} (h : Fifo chunks S s)
    (hs : step s (.reply 0 junk) = some s') (hsame : s'.acked = s.acked)
    (hunsent : ¬ SentAt s.sender.sendingStack 0) (hrun : s'.sender.pc ≠ .success) :
    Due s' ∨ room s' = room s := by
  obtain ⟨frame, hframe, -, heq⟩ := step_reply hs
  have hmem := List.mem_of_getElem? hframe
  have hfresh := h.fresh frame hmem
  obtain ⟨hold, hreply⟩ := h.inv.replies frame hmem
  -- nothing was delivered that the sender has not removed
  have htag : frame.1 = s'.acked := by
    refine le_antisymm (hsame ▸ not_lt.mp fun hlt => hunsent ?_) (hsame ▸ hfresh)
    have hsent := h.sentAt_of_delivered (le_refl _) (hlt.trans_le hold)
    rwa [Nat.sub_self] at hsent
  have htop : ∀ {t : Sender} {mainBreak : Bool}, s'.sender = endIteration t mainBreak →
      s'.sender = { t with pc := .top } := by
    intro t mainBreak hsender
    obtain ⟨pc, hpc⟩ := endIteration_eq t mainBreak
    rcases endIteration_pc t mainBreak with ⟨hgo, -⟩ | ⟨hdone, -⟩
    · rw [hpc] at hgo hsender
      rw [hsender, ← hgo]
    · exact absurd (hsender ▸ hdone) hrun
  rcases hreply with ⟨window, ts, -, h31, hwire⟩ | ⟨window, ts, -, h31, hwire⟩
  · obtain ⟨t, counter, mainBreak, hresp, ht⟩ :=
      respond_ack s.sender junk ts (UInt8.ofNat frame.1) h31
    have hsender := htop (by rw [heq, hwire, hresp])
    rcases ht with rfl | ⟨-, rfl⟩
    · exact Or.inr (room_congr (by rw [hsender]; rfl) (by rw [hsender]; rfl) hsame)
    · exact Or.inl ⟨by rw [hsender], by rw [hsender, htag], by rw [hsender]; simp [Sender.flagged]⟩
  · obtain ⟨mainBreak, hresp⟩ := respond_nack s.sender junk ts (UInt8.ofNat frame.1) h31
    have hsender := htop (by rw [heq, hwire, hresp])
    exact Or.inl ⟨by rw [hsender], by rw [hsender, htag], by rw [hsender]; simp [Sender.flagged]⟩

/-- **A step asks for the first packet**, or takes as much room as it sends. -/
theorem Fifo.room_step {S : Finset ℕ} (h : Fifo chunks S s) (he : e.InOrder)
    (hs : step s e = some s') (hsame : s'.acked = s.acked)
    (hunsent : ¬ SentAt s.sender.sendingStack 0) (hrun : s'.sender.pc ≠ .success) :
    Due s' ∨ room s' + (s.sends e).length ≤ room s := by
  have hkeep : room s' = room s → s.sends e = [] →
      Due s' ∨ room s' + (s.sends e).length ≤ room s := fun hroom hnil =>
    Or.inr (by rw [hnil, List.length_nil, hroom, Nat.add_zero])
  cases e with
  | transmit now => exact Or.inr (h.room_transmit hs)
  | reply i junk =>
    obtain rfl : i = 0 := he
    rcases h.room_reply hs hsame hunsent hrun with hdue | hroom
    · exact Or.inl hdue
    · exact hkeep hroom rfl
  | damagedReply i datagram junk =>
    obtain ⟨-, hrej, heq⟩ := step_damagedReply hs
    obtain ⟨pc, hpc⟩ := endIteration_eq s.sender false
    have hsender : s'.sender = { s.sender with pc := pc } := by
      rw [heq, respond_rejected hrej, hpc]
    exact hkeep (room_congr (by rw [hsender]) (by rw [hsender]; rfl) hsame) rfl
  | idle clock =>
    obtain ⟨-, heq⟩ := step_idle hs
    have hnone := findExpired_unsent hunsent clock
    refine hkeep ?_ rfl
    rcases wakeUp_cases clock s.sender with ⟨runner, hfound, -⟩ | hw | hw
    · rw [hnone] at hfound
      exact absurd hfound (by simp)
    · exact room_congr (by rw [heq, hw]) (by rw [heq, hw]) hsame
    · obtain ⟨pc, hpc⟩ := endIteration_eq s.sender false
      exact room_congr (by rw [heq, hw, hpc]) (by rw [heq, hw, hpc]; rfl) hsame
  | deliver dangling =>
    obtain ⟨frame, rest, -, -, rfl⟩ := step_deliver hs
    exact hkeep rfl rfl
  | damagedData dangling datagram =>
    obtain ⟨frame, rest, -, -, -, rfl⟩ := step_damagedData hs
    exact hkeep rfl rfl
  | loseData i => exact hkeep (Option.some.inj hs ▸ rfl) rfl
  | dupData i => exact hkeep (Option.some.inj hs ▸ rfl) rfl
  | loseReply i => exact hkeep (Option.some.inj hs ▸ rfl) rfl
  | dupReply i => exact hkeep (Option.some.inj hs ▸ rfl) rfl

/-- Nothing asks for it. -/
theorem Stands.not_due (h : Stands chunks run event i a) (hfair : Fair run event) :
    ∀ j, i ≤ j → ¬ Due (run j) := by
  intro j hij hdue
  obtain ⟨k, hjk, now, he, frame, hframe, htag⟩ := h.makes hfair hij hdue
  obtain ⟨-, hs⟩ := h.endless.step_of he
  obtain ⟨S, hp⟩ := h.live (k + 1)
  obtain ⟨-, -, heq⟩ := step_transmit hs
  have hmem : frame ∈ (run (k + 1)).data := by
    rw [heq]
    exact List.mem_append_right _ hframe
  have hacked := h.stays (k + 1) (by omega)
  have hsent := hp.inv.sent frame.1 (Or.inr (List.mem_map_of_mem hmem)) (by omega)
  rw [htag, hacked, Nat.sub_self] at hsent
  exact h.unsent hfair (k + 1) (by omega) hsent

/-- **In the end nothing is sent any more.** -/
theorem Stands.silent (h : Stands chunks run event i a) (hfair : Fair run event) :
    ∃ k, i ≤ k ∧ ∀ j, k ≤ j → ∀ e ∈ event j, (run j).sends e = [] := by
  have hstep : ∀ j, i ≤ j → ∀ e ∈ event j,
      room (run (j + 1)) + ((run j).sends e).length ≤ room (run j) := by
    intro j hij e he
    obtain ⟨S, hp⟩ := h.live j
    obtain ⟨horder, hs⟩ := h.endless.step_of he
    exact (hp.room_step horder hs
      (by rw [h.stays j hij, h.stays (j + 1) (by omega)]) (h.unsent hfair j hij)
      (h.running (j + 1))).resolve_left (h.not_due hfair (j + 1) (by omega))
  have hdown : ∀ j, i ≤ j → room (run (j + 1)) ≤ room (run j) := by
    intro j hij
    rcases h.endless j with ⟨-, heq⟩ | ⟨e, he, -, -⟩
    · rw [heq]
    · exact (Nat.le_add_right _ _).trans (hstep j hij e he)
  obtain ⟨k, hk⟩ := exists_stable (f := fun j => 32 - room (run (i + j)))
    (monotone_nat_of_le_succ fun j => Nat.sub_le_sub_left (hdown (i + j) (by omega)) 32)
    (fun j => Nat.sub_le _ _)
  refine ⟨i + k, by omega, fun j hj e he => List.eq_nil_of_length_eq_zero ?_⟩
  obtain ⟨l, rfl⟩ := Nat.exists_eq_add_of_le (show i ≤ j by omega)
  have hsent := hstep (i + l) (by omega) e he
  have h1 := hk l (by omega)
  have h2 := hk (l + 1) (by omega)
  have hle := room_le (run (i + k))
  have hle1 := room_le (run (i + l))
  have hle2 := room_le (run (i + l + 1))
  rw [← Nat.add_assoc] at h2
  omega

/-- **A fair run ends, or comes to stand for ever** in front of a first packet that was never sent,
with the sender silent. -/
theorem fair_ends_or_stands (chunks : List Chunk) (buf : Buffer)
    (hstart : run 0 = Sys.start chunks buf)
    (hrun : Endless step (fun _ e _ => e.InOrder) run event) (hfair : Fair run event) :
    (∃ i, (run i).sender.pc = .success ∧
      (run i).receiver.output.flatten = (chunks.map Subtype.val).flatten) ∨
      ∃ i, ∀ j, i ≤ j → (run j).sender.pc ≠ .success ∧ (run j).acked = (run i).acked ∧
        ¬ SentAt (run j).sender.sendingStack 0 ∧ ∀ e ∈ event j, (run j).sends e = [] := by
  refine (exists_success_or_stands chunks buf hstart hrun).imp_right ?_
  rintro ⟨i, hstands⟩
  obtain ⟨k, hik, hsilent⟩ := hstands.silent hfair
  refine ⟨k, fun j hkj => ⟨hstands.running j, ?_, hstands.unsent hfair j (by omega),
    hsilent j hkj⟩⟩
  rw [hstands.stays j (by omega), hstands.stays k hik]

/-- A run that is over is fair, in success or in front of a first packet that was never sent. -/
theorem fair_unroll {es : List Event} (hs : exec step s es = some s')
    (htop : s'.sender.pc ≠ .top)
    (hend : s'.sender.pc = .success ∨ ¬ SentAt s'.sender.sendingStack 0) :
    Fair (unroll step s es) fun i => es[i]? := by
  have hover : ∀ i, es.length ≤ i → unroll step s es i = s' := fun i => unroll_of_le hs
  have hquiet : ∀ {Q : ℕ → Event → Prop}, ¬ ∃ᶠ i in atTop, ∃ e ∈ es[i]?, Q i e := by
    intro Q hoften
    obtain ⟨i, hi, e, he, -⟩ := (frequently_atTop.mp hoften) es.length
    rw [List.getElem?_eq_none hi] at he
    exact absurd he (by simp)
  refine ⟨fun i => ⟨max i es.length, Nat.le_max_left _ _, ?_⟩, fun i hrunning => ?_,
    fun P hoften => absurd hoften hquiet, fun P hoften => absurd hoften hquiet⟩
  · rw [hover _ (Nat.le_max_right _ _)]
    exact htop
  · obtain ⟨hrun, -, hsent⟩ := hrunning (max i es.length) (Nat.le_max_left _ _)
    rw [hover _ (Nat.le_max_right _ _)] at hrun hsent
    exact absurd hsent (hend.resolve_left hrun)

end Fair

/-- The first frame is lost, then its ACK. -/
def lostTwice : List Event :=
  [.transmit 1, .loseData 0, .idle fun _ => 9, .transmit 9, .deliver pktNew, .loseReply 0,
    .idle fun _ => 19, .transmit 19, .deliver pktNew, .reply 0 cleared, .transmit 20,
    .deliver pktNew, .reply 0 cleared]

set_option maxRecDepth 8000 in
open Zlib.Standard in
theorem fair_completes_lostTwice :
    ∃ i, (unroll step (Sys.start (fileOf 0) cleared) lostTwice i).sender.pc = .success ∧
      (unroll step (Sys.start (fileOf 0) cleared) lostTwice i).receiver.output.flatten =
        ((fileOf 0).map Subtype.val).flatten := by
  obtain ⟨s, hs, hdone⟩ := Option.map_eq_some_iff.mp
    (by decide +kernel : (exec step (Sys.start (fileOf 0) cleared) lostTwice).map
      (fun s => s.sender.pc) = some .success)
  exact fair_completes (fileOf 0) cleared (unroll_zero _ _)
    (endless_unroll hs (by decide +kernel))
    (fair_unroll hs (by rw [hdone]; simp) (Or.inl hdone))

set_option maxRecDepth 8000 in
open Zlib.Standard in
/-- One more turn of the loop behind the run that ends in `stuck`, and then nothing. -/
theorem fair_ends_or_stands_nackedAhead :
    ∃ run event, run 0 = Sys.start (fileOf 1) cleared ∧
      Endless step (fun _ e _ => e.InOrder) run event ∧ Fair run event ∧
      ((∃ i, (run i).sender.pc = .success ∧
        (run i).receiver.output.flatten = ((fileOf 1).map Subtype.val).flatten) ∨
        ∃ i, ∀ j, i ≤ j → (run j).sender.pc ≠ .success ∧ (run j).acked = (run i).acked ∧
          ¬ SentAt (run j).sender.sendingStack 0 ∧ ∀ e ∈ event j, (run j).sends e = []) := by
  obtain ⟨s, hs, hread⟩ := Option.map_eq_some_iff.mp
    (by decide +kernel : (exec step (Sys.start (fileOf 1) cleared)
      (nackedAhead ++ [.transmit 9])).map (fun s =>
        (s.sender.pc, s.sender.sendingStack.map fun node => node.pkt.timestamp)) =
          some (.wait, [0]))
  rw [Prod.mk.injEq] at hread
  obtain ⟨hwait, hfresh⟩ := hread
  have hunsent : ¬ SentAt s.sender.sendingStack 0 := by
    rintro ⟨node, hnode, hts⟩
    have hzero := congrArg (fun stamps : List UInt32 => stamps[0]?) hfresh
    simp only [List.getElem?_map, Option.mem_def.mp hnode, Option.map_some] at hzero
    exact hts (Option.some.inj hzero)
  have hrun := endless_unroll (C := fun _ e _ => Event.InOrder e) hs
    (Along.of_forall (by decide))
  have hfair := fair_unroll hs (by rw [hwait]; simp) (Or.inr hunsent)
  exact ⟨_, _, unroll_zero _ _, hrun, hfair,
    fair_ends_or_stands (fileOf 1) cleared (unroll_zero _ _) hrun hfair⟩

end Trtp
