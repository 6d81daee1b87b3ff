import Trtp.System.Fair

/-!
# Every prompt run without losses ends (`read_write_loop_sender.c:87-190`)

Over a network that loses, repeats and damages nothing, with no timer over (`Clean`), a run needs
less than `Fair`: that both programs go on and no datagram stays in flight for ever.

* `moved`: what was sent, delivered and acknowledged; a step adds `gain` to it.
* `Idles.elim`: where nothing is added any more, nothing is in flight, and the next packet is sent.
* `prompt_completes`: **every such run ends both loops, with the whole file written**.
-/

namespace Trtp

open Trtp.Run

variable {chunks : List Chunk} {s s' : Sys} {e : Event} {run : ℕ → Sys}
  {event : ℕ → Option Event}

section Prompt

variable [Zlib] {sent replied : List (ℕ × List UInt8)}

/-- What was sent, delivered and acknowledged so far. -/
def moved (s : Sys) : ℕ := 2 * s.receiver.delivered + s.data.length + s.acked

/-- What a step without losses adds to it. -/
def gain (s : Sys) : Event → ℕ
  | .transmit now => (s.sends (.transmit now)).length
  | .deliver _ | .reply _ _ => 1
  | .idle _ | .damagedReply _ _ _ | .damagedData _ _ | .loseData _ | .dupData _ | .loseReply _
  | .dupReply _ => 0

theorem Pipeline.moved_step (h : Pipeline chunks s sent replied) (hclean : Clean s e)
    (hs : step s e = some s') : moved s' = moved s + gain s e := by
  have hlen := h.length_data
  cases e with
  | transmit now =>
    have hlen' := (h.transmit hs).length_data
    obtain ⟨-, hacked⟩ := h.fifo.inv.transmit hs
    obtain ⟨-, -, heq⟩ := step_transmit hs
    have hreceiver : s'.receiver = s.receiver := by rw [heq]
    rw [List.length_append, hreceiver] at hlen'
    rw [moved, moved, gain, hacked, hreceiver]
    omega
  | deliver dangling =>
    obtain ⟨hp, hdelivered⟩ := h.deliver hs
    have hlen' := hp.length_data
    obtain ⟨frame, rest, -, -, heq⟩ := step_deliver hs
    have hacked : s'.acked = s.acked := by rw [heq]; rfl
    rw [moved, moved, gain]
    omega
  | reply i junk =>
    obtain rfl : i = 0 := hclean
    obtain ⟨-, hacked⟩ := h.reply hs
    obtain ⟨frame, -, -, heq⟩ := step_reply hs
    have hreceiver : s'.receiver = s.receiver := by rw [heq]
    have hdata : s'.data = s.data := by rw [heq]
    rw [moved, moved, gain, hacked, hreceiver, hdata]
    omega
  | idle clock =>
    obtain ⟨-, heq⟩ := step_idle hs
    have hacked : s'.acked = s.acked :=
      acked_congr (by rw [heq]) (by rw [heq]; exact (wakeUp_keeps clock s.sender).1)
    rw [moved, moved, gain, hacked, heq, Nat.add_zero]
  | damagedReply i datagram junk => exact hclean.elim
  | damagedData dangling datagram => exact hclean.elim
  | loseData i => exact hclean.elim
  | dupData i => exact hclean.elim
  | loseReply i => exact hclean.elim
  | dupReply i => exact hclean.elim

theorem Pipeline.moved_le (h : Pipeline chunks s sent replied) :
    moved s ≤ 3 * (chunks.length + 1) := by
  have hlen := h.length_data
  have hdelivered := h.delivered_le
  obtain ⟨hacked, -, hall⟩ := h.sent_le
  unfold moved
  omega

/-- A step that adds nothing leaves what is in flight. -/
theorem inFlight_of_gain (hclean : Clean s e) (hs : step s e = some s') (hgain : gain s e = 0) :
    s'.data = s.data ∧ s'.replies = s.replies := by
  cases e with
  | transmit now =>
    obtain ⟨-, -, heq⟩ := step_transmit hs
    have hnil : s.sends (.transmit now) = [] := List.eq_nil_of_length_eq_zero hgain
    rw [Sys.sends] at hnil
    rw [heq, hnil, List.append_nil]
    exact ⟨rfl, rfl⟩
  | deliver dangling => exact absurd hgain (by simp [gain])
  | reply i junk => exact absurd hgain (by simp [gain])
  | idle clock =>
    obtain ⟨-, heq⟩ := step_idle hs
    rw [heq]
    exact ⟨rfl, rfl⟩
  | damagedReply i datagram junk => exact hclean.elim
  | damagedData dangling datagram => exact hclean.elim
  | loseData i => exact hclean.elim
  | dupData i => exact hclean.elim
  | loseReply i => exact hclean.elim
  | dupReply i => exact hclean.elim

/-- With nothing in flight, everything that was sent is acknowledged. -/
theorem Pipeline.acked_eq (h : Pipeline chunks s sent replied) (hdata : s.data = [])
    (hreplies : s.replies = []) : s.acked = sent.length := by
  have hlen := h.length_data
  have hle := h.fifo.inv.acked_le
  have hacks := congrArg List.length h.answered
  have hmany := le_length_acksOf chunks.length s.receiver.delivered
  have hread := congrArg List.length h.replies_eq
  rw [hdata, List.length_nil] at hlen
  rw [List.length_map] at hacks
  rw [hreplies, List.length_nil, List.length_drop] at hread
  omega

/-- What the machines and the network owe a run without losses: the sender goes on, and no datagram
stays in flight for ever to a program that reads. -/
structure Prompt (run : ℕ → Sys) (event : ℕ → Option Event) : Prop where
  moves : ∀ i, ∃ j, i ≤ j ∧ (run j).sender.pc ≠ .top
  wakes : ∀ i, ∃ j, i ≤ j ∧
    ¬ ((run j).sender.pc = .wait ∧ (run j).sender.receiverWindowSize ≠ 0)
  data : ∀ i, ∃ j, i ≤ j ∧
    ((run j).data = [] ∨ ∃ dangling, event j = some (.deliver dangling))
  replies : ∀ i, ∃ j, i ≤ j ∧ ((run j).sender.pc = .success ∨ (run j).replies = [] ∨
    ∃ junk, event j = some (.reply 0 junk))

/-- From moment `i` on a run without losses does nothing but turn round. -/
structure Idles (chunks : List Chunk) (run : ℕ → Sys) (event : ℕ → Option Event) (i : ℕ) :
    Prop where
  endless : Endless step (fun s e _ => Clean s e) run event
  live : ∀ j, ∃ sent replied, Pipeline chunks (run j) sent replied
  running : ∀ j, (run j).sender.pc ≠ .success
  gain_eq : ∀ j, i ≤ j → ∀ e, event j = some e → gain (run j) e = 0

/-- Then nothing is in flight. -/
theorem Idles.inFlight {i : ℕ} (h : Idles chunks run event i) (hprompt : Prompt run event) :
    ∀ j, i ≤ j → (run j).data = [] ∧ (run j).replies = [] := by
  have hsame : ∀ j, i ≤ j → (run j).data = (run i).data ∧ (run j).replies = (run i).replies := by
    refine Nat.le_induction ⟨rfl, rfl⟩ fun j hij ih => ?_
    rcases h.endless j with ⟨-, heq⟩ | ⟨e, he, hclean, hs⟩
    · rw [heq]
      exact ih
    · obtain ⟨hdata, hreplies⟩ := inFlight_of_gain hclean hs (h.gain_eq j hij e he)
      exact ⟨hdata.trans ih.1, hreplies.trans ih.2⟩
  have hdata : (run i).data = [] := by
    obtain ⟨j, hij, hnil | ⟨dangling, he⟩⟩ := hprompt.data i
    · exact (hsame j hij).1.symm.trans hnil
    · exact absurd (h.gain_eq j hij _ he) (by simp [gain])
  have hreplies : (run i).replies = [] := by
    obtain ⟨j, hij, hdone | hnil | ⟨junk, he⟩⟩ := hprompt.replies i
    · exact absurd hdone (h.running j)
    · exact (hsame j hij).2.symm.trans hnil
    · exact absurd (h.gain_eq j hij _ he) (by simp [gain])
  exact fun j hij => ⟨(hsame j hij).1.trans hdata, (hsame j hij).2.trans hreplies⟩

/-- **No prompt run idles**: with nothing in flight, the next packet is sent. -/
theorem Idles.elim {i : ℕ} (h : Idles chunks run event i) (hprompt : Prompt run event) :
    False := by
  obtain ⟨j, hij, hwake⟩ := hprompt.wakes i
  obtain ⟨sent, replied, hp⟩ := h.live j
  obtain ⟨hdata, hreplies⟩ := h.inFlight hprompt j hij
  have htop : (run j).sender.pc = .top := by
    cases hpc : (run j).sender.pc with
    | top => rfl
    | wait =>
      have hacked := hp.acked_eq hdata hreplies
      exact absurd ⟨hpc, hp.window.resolve_right (by omega)⟩ hwake
    | success => exact absurd hpc (h.running j)
    | failure => exact absurd hpc hp.fifo.ends.running
  obtain ⟨l, hl, hleft⟩ := hprompt.moves j
  obtain ⟨k, hjk, htop', e, he, now, rfl⟩ := h.endless.occurs (W := fun s => s.sender.pc = .top)
    (E := fun e => ∃ now, e = .transmit now)
    (fun s e s' htop hnot _ hs => by
      rw [(sender_of_top htop (fun now hnow => hnot ⟨now, hnow⟩) hs).1, htop]) htop
    ⟨l, hl, hleft⟩
  obtain ⟨sent', replied', hp'⟩ := h.live k
  obtain ⟨hdata', hreplies'⟩ := h.inFlight hprompt k (by omega)
  have hone := hp'.sends_next htop' (hp'.acked_eq hdata' hreplies') now
  have hzero := h.gain_eq k (by omega) _ he
  rw [gain] at hzero
  omega

/-- **Every prompt run without losses ends**, without a timeout: both loops are left, and nothing
but four of the five last ACKs is in flight. -/
theorem prompt_completes (chunks : List Chunk) (buf : Buffer)
    (hstart : run 0 = Sys.start chunks buf)
    (hrun : Endless step (fun s e _ => Clean s e) run event) (hprompt : Prompt run event) :
    ∃ i, (run i).sender.pc = .success ∧ (run i).receiver.closed = true ∧
      (run i).receiver.output.flatten = (chunks.map Subtype.val).flatten ∧
      (run i).data = [] ∧ (run i).replies.length = 4 := by
  have hlive : ∀ i, ∃ sent replied, Pipeline chunks (run i) sent replied := by
    refine hrun.inv (I := fun s => ∃ sent replied, Pipeline chunks s sent replied) ?_
      ⟨_, _, hstart ▸ pipeline_start chunks buf⟩
    rintro s e s' ⟨sent, replied, hp⟩ hclean hs
    exact ⟨_, _, pipeline_step hp hclean hs⟩
  obtain ⟨i, hdone⟩ : ∃ i, (run i).sender.pc = .success := by
    refine hrun.exists_goal (I := fun s => ∃ sent replied, Pipeline chunks s sent replied)
      (V := moved) (b := 3 * (chunks.length + 1)) (G := fun s => s.sender.pc = .success)
      hlive ?_ ?_ ?_
    · rintro s e s' ⟨sent, replied, hp⟩ hclean hs
      exact (hp.moved_step hclean hs).ge.trans' (Nat.le_add_right _ _)
    · rintro s ⟨sent, replied, hp⟩
      exact hp.moved_le
    · intro i hmoved
      by_contra hnever
      push Not at hnever
      refine Idles.elim (i := i) ⟨hrun, hlive, hnever, fun j hij e he => ?_⟩ hprompt
      obtain ⟨sent, replied, hp⟩ := hlive j
      obtain ⟨hclean, hs⟩ := hrun.step_of he
      have hgain := hp.moved_step hclean hs
      have h1 := hmoved j hij
      have h2 := hmoved (j + 1) (by omega)
      omega
  obtain ⟨sent, replied, hp⟩ := hlive i
  exact ⟨i, hdone, hp.completed hdone⟩

/-- A run that is over with nothing left for the receiver is prompt. -/
theorem prompt_unroll {es : List Event} (hs : exec step s es = some s')
    (hdone : s'.sender.pc = .success) (hdata : s'.data = []) :
    Prompt (unroll step s es) fun i => es[i]? := by
  have hover : ∀ i, unroll step s es (max i es.length) = s' := fun i =>
    unroll_of_le hs (Nat.le_max_right _ _)
  refine ⟨fun i => ⟨max i es.length, Nat.le_max_left _ _, ?_⟩,
    fun i => ⟨max i es.length, Nat.le_max_left _ _, ?_⟩,
    fun i => ⟨max i es.length, Nat.le_max_left _ _, Or.inl ?_⟩,
    fun i => ⟨max i es.length, Nat.le_max_left _ _, Or.inl ?_⟩⟩
  · rw [hover, hdone]
    simp
  · rw [hover, hdone]
    simp
  · rw [hover, hdata]
  · rw [hover, hdone]

end Prompt

/-- In one iteration the terminating packet is held back. -/
def heldBack : List Event :=
  [.transmit 1, .deliver pktNew, .reply 0 cleared, .transmit 1, .idle fun _ => 1, .deliver pktNew,
    .transmit 1, .reply 0 cleared, .transmit 2, .deliver pktNew, .reply 0 cleared]

set_option maxRecDepth 8000 in
open Zlib.Standard in
theorem prompt_completes_heldBack :
    ∃ i, (unroll step (Sys.start (fileOf 1) cleared) heldBack i).sender.pc = .success ∧
      (unroll step (Sys.start (fileOf 1) cleared) heldBack i).receiver.closed = true ∧
      (unroll step (Sys.start (fileOf 1) cleared) heldBack i).receiver.output.flatten =
        ((fileOf 1).map Subtype.val).flatten ∧
      (unroll step (Sys.start (fileOf 1) cleared) heldBack i).data = [] ∧
      (unroll step (Sys.start (fileOf 1) cleared) heldBack i).replies.length = 4 := by
  obtain ⟨s, hs, hread⟩ := Option.map_eq_some_iff.mp
    (by decide +kernel : (exec step (Sys.start (fileOf 1) cleared) heldBack).map
      (fun s => (s.sender.pc, s.data)) = some (.success, []))
  rw [Prod.mk.injEq] at hread
  exact prompt_completes (fileOf 1) cleared (unroll_zero _ _)
    (endless_unroll hs (by decide +kernel)) (prompt_unroll hs hread.1 hread.2)

end Trtp
