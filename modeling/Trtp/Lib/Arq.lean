import Mathlib.Logic.Relation
import Trtp.Lib.Window

/-!
# Selective repeat with numbers that do not wrap

A sender with the items 0, ..., `n` and a receiver, both with a window of `W`, over channels that
keep the order and may lose or repeat what they carry. Items and replies are known by their numbers
in `ℕ`; there are no segments, no timers and no programs. Item `n` ends the transfer and waits until
it is alone.

A reply carries the number of the first missing item. It lets the sender go on (`ack`) or does not.

* `Step W n`: what can happen, in any order.
* `Inv`, `inv_step`: **the sender holds all that is missing, the receiver is at most one window in
  front of it, and what is in flight comes less than two windows too late.**
* `Step.forward`: nothing that was acknowledged or accepted is taken back.
-/

namespace Trtp.Arq

open Trtp.Reassembly

/-- A reply: the first missing item, and whether it counts as an acknowledgement. -/
structure Reply where
  ack : Bool
  number : ℕ

/-- The items in front of `acked` are acknowledged, those in `got` were accepted. -/
structure State where
  acked : ℕ
  got : Finset ℕ
  data : List ℕ
  replies : List Reply
  finished : Bool

/-- Nothing was sent. -/
def start : State := { acked := 0, got := ∅, data := [], replies := [], finished := false }

/-- What can happen. -/
inductive Step (W n : ℕ) (s : State) : State → Prop
  | send (j : ℕ) (lo : s.acked ≤ j) (hi : j < s.acked + W) (last : j < n ∨ j = n ∧ s.acked = n) :
      Step W n s { s with data := s.data ++ [j] }
  | arrive (j : ℕ) (rest : List ℕ) (copies : ℕ) (head : s.data = j :: rest) (missing : n ∉ s.got) :
      Step W n s { s with
        got := absorb W s.got j
        data := rest
        replies := s.replies ++ List.replicate copies ⟨true, next (absorb W s.got j)⟩ }
  | refuse (j : ℕ) (rest : List ℕ) (head : s.data = j :: rest) :
      Step W n s { s with data := rest, replies := s.replies ++ [⟨false, next s.got⟩] }
  | ack (k : ℕ) (rest : List Reply) (head : s.replies = ⟨true, k⟩ :: rest) :
      Step W n s { s with acked := max s.acked k, replies := rest }
  | loseData (pre : List ℕ) (j : ℕ) (post : List ℕ) (split : s.data = pre ++ j :: post) :
      Step W n s { s with data := pre ++ post }
  | dupData (pre : List ℕ) (j : ℕ) (post : List ℕ) (split : s.data = pre ++ j :: post) :
      Step W n s { s with data := pre ++ j :: j :: post }
  | loseReply (pre : List Reply) (r : Reply) (post : List Reply)
      (split : s.replies = pre ++ r :: post) : Step W n s { s with replies := pre ++ post }
  | dupReply (pre : List Reply) (r : Reply) (post : List Reply)
      (split : s.replies = pre ++ r :: post) :
      Step W n s { s with replies := pre ++ r :: r :: post }
  | finish (all : n ≤ s.acked) : Step W n s { s with finished := true }

variable {W n : ℕ} {s s' : State}

/-! ## Forward only -/

/-- The second state is not behind the first. -/
structure Forward (s s' : State) : Prop where
  acked : s.acked ≤ s'.acked
  got : s.got ⊆ s'.got
  finished : s.finished = true → s'.finished = true

theorem Forward.refl (s : State) : Forward s s := ⟨le_refl _, Finset.Subset.refl _, id⟩

theorem Forward.trans {s1 : State} (h : Forward s s1) (h' : Forward s1 s') : Forward s s' :=
  ⟨h.acked.trans h'.acked, h.got.trans h'.got, fun hs => h'.finished (h.finished hs)⟩

theorem Step.forward (h : Step W n s s') : Forward s s' := by
  cases h with
  | arrive j rest copies head missing => exact ⟨le_refl _, subset_absorb _ _, id⟩
  | ack k rest head => exact ⟨le_max_left _ _, Finset.Subset.refl _, id⟩
  | finish all => exact ⟨le_refl _, Finset.Subset.refl _, fun _ => rfl⟩
  | _ => exact ⟨le_refl _, Finset.Subset.refl _, id⟩

theorem forward_run (h : Relation.ReflTransGen (Step W n) s s') : Forward s s' := by
  induction h with
  | refl => exact Forward.refl s
  | tail _ hstep ih => exact ih.trans hstep.forward

/-! ## The invariant -/

/-- Sender, receiver and the channels between them. -/
structure Inv (W n : ℕ) (s : State) : Prop where
  line : InFlight W (2 * W) (n + 1) s.acked 0 s.got s.data
  near : ∀ j, j ∈ s.got ∨ j ∈ s.data → j ≤ n ∧ j < s.acked + W
  last : n ∈ s.got ∨ n ∈ s.data → n ≤ s.acked
  order : (s.replies.map Reply.number).Pairwise (· ≤ ·)
  between : ∀ r ∈ s.replies, s.acked ≤ r.number ∧ r.number ≤ next s.got
  finished : s.finished = true → n ≤ s.acked

theorem inv_start (W n : ℕ) : Inv W n start where
  line := inFlight_start W (2 * W) (n + 1)
  near := fun j hj => hj.elim (fun h => absurd h (Finset.notMem_empty j))
    fun h => absurd h List.not_mem_nil
  last := fun hn => hn.elim (fun h => absurd h (Finset.notMem_empty n))
    fun h => absurd h List.not_mem_nil
  order := List.Pairwise.nil
  between := fun r hr => absurd hr List.not_mem_nil
  finished := fun h => absurd h (by simp [start])

/-- A number repeated in place leaves the numbers in order. -/
theorem pairwise_repeat {k : ℕ} {pre post : List ℕ} (h : (pre ++ k :: post).Pairwise (· ≤ ·)) :
    (pre ++ k :: k :: post).Pairwise (· ≤ ·) := by
  rw [List.pairwise_append, List.pairwise_cons] at h ⊢
  obtain ⟨hpre, ⟨hk, hpost⟩, hcross⟩ := h
  refine ⟨hpre, ⟨fun i hi => ?_, List.pairwise_cons.mpr ⟨hk, hpost⟩⟩, fun i hi j hj => ?_⟩
  · rcases List.mem_cons.mp hi with rfl | hi
    · exact le_refl _
    · exact hk i hi
  · rcases List.mem_cons.mp hj with rfl | hj
    · exact hcross i hi _ List.mem_cons_self
    · exact hcross i hi j hj

/-- The line of items changes. -/
theorem Inv.line_change {data : List ℕ} (h : Inv W n s)
    (hline : InFlight W (2 * W) (n + 1) s.acked 0 s.got data) (hsub : ∀ j ∈ data, j ∈ s.data) :
    Inv W n { s with data := data } where
  line := hline
  near := fun j hj => h.near j (hj.imp_right (hsub j))
  last := fun hn => h.last (hn.imp_right (hsub n))
  order := h.order
  between := h.between
  finished := h.finished

/-- Some replies are lost, others come behind them. -/
theorem Inv.replies_change {replies : List Reply} (h : Inv W n s)
    (horder : (replies.map Reply.number).Pairwise (· ≤ ·))
    (hbetween : ∀ r ∈ replies, s.acked ≤ r.number ∧ r.number ≤ next s.got) :
    Inv W n { s with replies := replies } :=
  ⟨h.line, h.near, h.last, horder, hbetween, h.finished⟩

/-- Replies with the number that is missing now. -/
theorem Inv.answer (h : Inv W n s) (ack : Bool) (copies : ℕ) :
    Inv W n { s with replies := s.replies ++ List.replicate copies ⟨ack, next s.got⟩ } := by
  refine h.replies_change ?_ fun r hr => ?_
  · rw [List.map_append, List.map_replicate, List.pairwise_append]
    refine ⟨h.order, List.pairwise_replicate.mpr (Or.inr (le_refl _)), fun i hi j hj => ?_⟩
    obtain ⟨r, hr, rfl⟩ := List.mem_map.mp hi
    rw [List.eq_of_mem_replicate hj]
    exact (h.between r hr).2
  · rcases List.mem_append.mp hr with hr | hr
    · exact h.between r hr
    · rw [List.eq_of_mem_replicate hr]
      exact ⟨h.line.acked_le, le_refl _⟩

theorem Inv.send {j : ℕ} (h : Inv W n s) (lo : s.acked ≤ j) (hi : j < s.acked + W)
    (last : j < n ∨ j = n ∧ s.acked = n) : Inv W n { s with data := s.data ++ [j] } := by
  have hline := h.line.send (le_refl _) (by omega : s.acked < n + 1) (o := j - s.acked)
    (t := j - s.acked) (by omega) (by omega) (by omega) (Or.inl (Nat.zero_add _))
  rw [Nat.add_sub_cancel' lo] at hline
  have hcases : ∀ i, i ∈ s.got ∨ i ∈ s.data ++ [j] → (i ∈ s.got ∨ i ∈ s.data) ∨ i = j := by
    rintro i (hi | hi)
    · exact Or.inl (Or.inl hi)
    · rcases List.mem_append.mp hi with hi | hi
      · exact Or.inl (Or.inr hi)
      · exact Or.inr (List.mem_singleton.mp hi)
  refine ⟨hline, fun i hi' => ?_, fun hn => ?_, h.order, h.between, h.finished⟩
  · rcases hcases i hi' with hi' | rfl
    · exact h.near i hi'
    · exact ⟨by omega, hi⟩
  · rcases hcases n hn with hn | hn
    · exact h.last hn
    · simp only
      omega

theorem Inv.arrive {j : ℕ} {rest : List ℕ} (h : Inv W n s) (head : s.data = j :: rest) :
    Inv W n { s with got := absorb W s.got j, data := rest } := by
  have hline := h.line
  rw [head] at hline
  have hcases : ∀ i, i ∈ absorb W s.got j ∨ i ∈ rest → i ∈ s.got ∨ i ∈ s.data := by
    rw [head]
    rintro i (hi | hi)
    · rcases mem_absorb hi with hi | rfl
      · exact Or.inl hi
      · exact Or.inr List.mem_cons_self
    · exact Or.inr (List.mem_cons_of_mem j hi)
  exact ⟨hline.arrive, fun i hi => h.near i (hcases i hi), fun hn => h.last (hcases n hn), h.order,
    fun r hr => ⟨(h.between r hr).1, (h.between r hr).2.trans (next_le_next_absorb _ _)⟩,
    h.finished⟩

theorem Inv.ack {k : ℕ} {ack : Bool} {rest : List Reply} (h : Inv W n s)
    (head : s.replies = ⟨ack, k⟩ :: rest) :
    Inv W n { s with acked := max s.acked k, replies := rest } := by
  have hfirst := h.between ⟨ack, k⟩ (head ▸ List.mem_cons_self)
  have horder := h.order
  rw [head, List.map_cons, List.pairwise_cons] at horder
  rw [max_eq_right hfirst.1]
  refine ⟨h.line.advance hfirst.1 hfirst.2, fun j hj => ?_, fun hn => (h.last hn).trans hfirst.1,
    horder.2, fun r hr => ?_, fun hf => (h.finished hf).trans hfirst.1⟩
  · have hnear := h.near j hj
    have hle := hfirst.1
    simp only at hle ⊢
    omega
  · exact ⟨horder.1 _ (List.mem_map_of_mem hr),
      (h.between r (head ▸ List.mem_cons_of_mem _ hr)).2⟩

/-- **The step**, one case for each thing that can happen. -/
theorem inv_step (h : Inv W n s) (hstep : Step W n s s') : Inv W n s' := by
  cases hstep with
  | send j lo hi last => exact h.send lo hi last
  | arrive j rest copies head missing => exact (h.arrive head).answer true copies
  | refuse j rest head =>
    have hline := h.line
    rw [head] at hline
    exact (h.line_change (hline.sub (List.sublist_cons_self j rest)) fun i hi =>
      head ▸ List.mem_cons_of_mem j hi).answer false 1
  | ack k rest head => exact h.ack head
  | loseData pre j post split =>
    have hsub : (pre ++ post).Sublist s.data :=
      split ▸ (List.Sublist.refl pre).append (List.sublist_cons_self j post)
    exact h.line_change (h.line.sub hsub) fun i hi => hsub.subset hi
  | dupData pre j post split =>
    have hline := h.line
    rw [split] at hline
    refine h.line_change hline.dup fun i hi => ?_
    rw [split]
    simpa using hi
  | loseReply pre r post split =>
    have hsub : (pre ++ post).Sublist s.replies :=
      split ▸ (List.Sublist.refl pre).append (List.sublist_cons_self r post)
    exact h.replies_change (h.order.sublist (hsub.map _)) fun r hr => h.between r (hsub.subset hr)
  | dupReply pre r post split =>
    have horder := h.order
    rw [split, List.map_append, List.map_cons] at horder
    refine h.replies_change ?_ fun t ht => h.between t ?_
    · rw [List.map_append, List.map_cons, List.map_cons]
      exact pairwise_repeat horder
    · rw [split]
      simpa using ht
  | finish all => exact ⟨h.line, h.near, h.last, h.order, h.between, fun _ => all⟩

/-- **Every reachable state.** -/
theorem inv_run (h : Relation.ReflTransGen (Step W n) start s) : Inv W n s := by
  induction h with
  | refl => exact inv_start W n
  | tail _ hstep ih => exact inv_step ih hstep

/-- The receiver is at most one window in front of the sender. -/
theorem Inv.next_le (h : Inv W n s) : s.acked ≤ next s.got ∧ next s.got ≤ s.acked + W := by
  refine ⟨h.line.acked_le, ?_⟩
  rcases Nat.eq_zero_or_pos (next s.got) with h0 | hpos
  · omega
  · have := (h.near _ (Or.inl (mem_of_lt_next (Nat.pred_lt hpos.ne')))).2
    rw [Nat.pred_eq_sub_one] at this
    omega

end Trtp.Arq
