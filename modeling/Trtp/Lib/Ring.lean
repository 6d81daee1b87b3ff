import Mathlib.Data.List.Nodup
import Mathlib.Logic.Function.Basic
import Mathlib.Tactic.Tauto

/-!
# Rings of doubly linked cells

Cells have addresses in a type `α`; `next` and `prev` give the neighbours of an address.

* `Path next prev a l b`: from `a` on, `next` comes through the addresses of `l` to `b`, and `prev`
  goes the same way back. `path_append` cuts a path at a cell, `Path.congr` is the frame rule.
* `Ring next prev addrs`: the addresses are distinct, and from the last one `next` comes to the
  first one again. `ring_iff` sees a ring from any of its cells, so that inserting behind a cell
  and taking a cell out need no case for the first or the last one (`Ring.insert`,
  `Ring.remove`).
* `Ring.follow_eq`: after `n` steps from the first cell one is at address `n` of the ring, and after
  as many steps as there are cells at the first one again.
-/

namespace Trtp.Links

variable {α : Type*}

/-- `a` and `b` are neighbours, seen from both. -/
def Link (next prev : α → Option α) (a b : α) : Prop := next a = some b ∧ prev b = some a

/-- From `a` through the addresses of a list to `b`. -/
def Path (next prev : α → Option α) : α → List α → α → Prop
  | a, [], b => Link next prev a b
  | a, c :: l, b => Link next prev a c ∧ Path next prev c l b

/-- The addresses of a list, and from the last one to the first one again. -/
def Ring (next prev : α → Option α) : List α → Prop
  | [] => True
  | a :: l => (a :: l).Nodup ∧ Path next prev a l a

variable {next prev next' prev' : α → Option α} {a b c : α} {l l' front back : List α}

/-! ## Paths -/

theorem path_append :
    Path next prev a (l ++ c :: l') b ↔ Path next prev a l c ∧ Path next prev c l' b := by
  induction l generalizing a with
  | nil => exact Iff.rfl
  | cons d l ih => exact (and_congr_right fun _ => ih).trans and_assoc.symm

/-- **The frame rule**: a path looks at `next` from all its cells but the end, and at `prev` from
all but the start. -/
theorem Path.congr (h : Path next prev a l b) (hnext : ∀ x ∈ a :: l, next' x = next x)
    (hprev : ∀ x ∈ l ++ [b], prev' x = prev x) : Path next' prev' a l b := by
  induction l generalizing a with
  | nil =>
    exact ⟨(hnext a List.mem_cons_self).trans h.1, (hprev b List.mem_cons_self).trans h.2⟩
  | cons c l ih =>
    obtain ⟨⟨hac, hca⟩, hpath⟩ := h
    refine ⟨⟨(hnext a List.mem_cons_self).trans hac, (hprev c List.mem_cons_self).trans hca⟩, ?_⟩
    exact ih hpath (fun x hx => hnext x (List.mem_cons_of_mem a hx))
      (fun x hx => hprev x (List.mem_cons_of_mem c hx))

theorem Path.next_eq (h : Path next prev a l b) : next a = (l ++ [b]).head? := by
  cases l with
  | nil => exact h.1
  | cons c l => exact h.1.1

theorem Path.prev_eq (h : Path next prev a l b) : prev b = (a :: l).getLast? := by
  induction l generalizing a with
  | nil => exact h.2
  | cons c l ih => exact ih h.2

/-! ## Rings -/

/-- **A ring looks the same from each of its cells.** -/
theorem ring_iff : Ring next prev (front ++ a :: back) ↔
    (a :: (back ++ front)).Nodup ∧ Path next prev a (back ++ front) a := by
  cases front with
  | nil => rw [List.nil_append, List.append_nil]; exact Iff.rfl
  | cons f front =>
    have hperm : (f :: front ++ a :: back).Perm (a :: (back ++ f :: front)) :=
      List.perm_middle.trans ((List.perm_append_comm).cons a)
    rw [path_append, List.cons_append, Ring, path_append, ← List.cons_append, hperm.nodup_iff]
    exact and_congr_right fun _ => and_comm

theorem Ring.nodup (h : Ring next prev l) : l.Nodup := by
  cases l with
  | nil => exact List.nodup_nil
  | cons a l => exact h.1

/-- The frame rule for rings. -/
theorem Ring.congr (h : Ring next prev l) (hnext : ∀ x ∈ l, next' x = next x)
    (hprev : ∀ x ∈ l, prev' x = prev x) : Ring next' prev' l := by
  cases l with
  | nil => trivial
  | cons a l =>
    refine ⟨h.1, h.2.congr hnext fun x hx => hprev x ?_⟩
    rcases List.mem_append.mp hx with hm | hm
    · exact List.mem_cons_of_mem a hm
    · exact List.mem_singleton.mp hm ▸ List.mem_cons_self

theorem Ring.link (h : Ring next prev (front ++ a :: b :: back)) : Link next prev a b :=
  (ring_iff.mp h).2.1

/-- Every cell has a neighbour in the ring. -/
theorem Ring.exists_link (h : Ring next prev l) (ha : a ∈ l) : ∃ b ∈ l, Link next prev a b := by
  obtain ⟨front, back, rfl⟩ := List.append_of_mem ha
  have hpath := (ring_iff.mp h).2
  cases hrest : back ++ front with
  | nil =>
    rw [hrest] at hpath
    exact ⟨a, ha, hpath⟩
  | cons b rest =>
    rw [hrest] at hpath
    refine ⟨b, ?_, hpath.1⟩
    have hb : b ∈ back ++ front := hrest ▸ List.mem_cons_self
    rw [List.mem_append] at hb
    rw [List.mem_append, List.mem_cons]
    tauto

theorem Ring.next_eq (h : Ring next prev (front ++ a :: back)) :
    next a = (back ++ front ++ [a]).head? :=
  (ring_iff.mp h).2.next_eq

theorem Ring.prev_eq (h : Ring next prev (front ++ a :: back)) :
    prev a = (a :: (back ++ front)).getLast? :=
  (ring_iff.mp h).2.prev_eq

/-! ## Going round -/

/-- `n` steps along `next`. -/
def follow (next : α → Option α) : ℕ → Option α → Option α
  | 0, p => p
  | n + 1, p => follow next n (p.bind next)

theorem follow_succ (n : ℕ) (p : Option α) :
    follow next (n + 1) p = (follow next n p).bind next := by
  induction n generalizing p with
  | zero => rfl
  | succ n ih => exact ih (p.bind next)

theorem Path.follow_eq (h : Path next prev a l b) {n : ℕ} (hn : n ≤ l.length + 1) :
    follow next n (some a) = (a :: l ++ [b])[n]? := by
  induction l generalizing a n with
  | nil =>
    match n, hn with
    | 0, _ => rfl
    | 1, _ => exact h.1
  | cons c l ih =>
    cases n with
    | zero => rfl
    | succ n =>
      rw [follow, Option.bind_some, h.1.1, ih h.2 (by simpa using hn)]
      rfl

/-- **Once round the ring.** -/
theorem Ring.follow_eq (h : Ring next prev l) {n : ℕ} (hn : n < l.length) :
    follow next n l.head? = l[n]? := by
  cases l with
  | nil => exact absurd hn (by simp)
  | cons a l =>
    rw [List.head?_cons, h.2.follow_eq (by simp only [List.length_cons] at hn; omega),
      List.getElem?_append_left hn]

theorem Ring.follow_length (h : Ring next prev l) : follow next l.length l.head? = l.head? := by
  cases l with
  | nil => rfl
  | cons a l =>
    rw [List.head?_cons, List.length_cons, h.2.follow_eq (Nat.le_refl _), List.cons_append,
      List.getElem?_cons_succ, List.getElem?_concat_length]

/-! ## Changing a ring -/

section Update

variable [DecidableEq α]

/-- One cell more, behind the start of a path. -/
theorem Path.insert {x s : α} (h : Path next prev a l b) (hs : next a = some s)
    (hnodup : (a :: l).Nodup) (hb : b ∉ l) (hx : x ∉ a :: l) (hxb : x ≠ b) :
    Path (Function.update (Function.update next x (some s)) a (some x))
      (Function.update (Function.update prev x (some a)) s (some x)) a (x :: l) b := by
  have hxa : x ≠ a := fun heq => hx (heq ▸ List.mem_cons_self)
  have hxl : x ∉ l := fun hm => hx (List.mem_cons_of_mem a hm)
  have hal : a ∉ l := (List.nodup_cons.mp hnodup).1
  have hsl : s ∈ l ++ [b] := by
    have hhead := h.next_eq
    rw [hs] at hhead
    exact List.mem_of_mem_head? hhead.symm
  have hxs : x ≠ s := by
    rintro rfl
    rcases List.mem_append.mp hsl with hm | hm
    · exact hxl hm
    · exact hxb (List.mem_singleton.mp hm)
  have hax : Link (Function.update (Function.update next x (some s)) a (some x))
      (Function.update (Function.update prev x (some a)) s (some x)) a x := by
    constructor
    · exact Function.update_self ..
    · rw [Function.update_of_ne hxs, Function.update_self]
  have hxsl : Link (Function.update (Function.update next x (some s)) a (some x))
      (Function.update (Function.update prev x (some a)) s (some x)) x s := by
    constructor
    · rw [Function.update_of_ne hxa, Function.update_self]
    · exact Function.update_self ..
  cases l with
  | nil =>
    obtain rfl : s = b := Option.some.inj (hs.symm.trans h.1)
    exact ⟨hax, hxsl⟩
  | cons c l =>
    obtain rfl : s = c := Option.some.inj (hs.symm.trans h.1.1)
    refine ⟨hax, hxsl, h.2.congr ?_ ?_⟩
    · intro y hy
      have hya : y ≠ a := fun heq => hal (heq ▸ hy)
      have hyx : y ≠ x := fun heq => hxl (heq ▸ hy)
      rw [Function.update_of_ne hya, Function.update_of_ne hyx]
    · intro y hy
      have hys : y ≠ s := by
        rintro rfl
        rcases List.mem_append.mp hy with hm | hm
        · exact (List.nodup_cons.mp (List.nodup_cons.mp hnodup).2).1 hm
        · exact hb (List.mem_singleton.mp hm ▸ List.mem_cons_self)
      have hyx : y ≠ x := by
        rintro rfl
        rcases List.mem_append.mp hy with hm | hm
        · exact hxl (List.mem_cons_of_mem s hm)
        · exact hxb (List.mem_singleton.mp hm)
      rw [Function.update_of_ne hys, Function.update_of_ne hyx]

/-- The last cell of a path is linked to another end. -/
theorem Path.redirect {p t : α} (h : Path next prev a l b) (hp : (a :: l).getLast? = some p)
    (hnodup : (a :: l).Nodup) (ht : t ∉ l) :
    Path (Function.update next p (some t)) (Function.update prev t (some p)) a l t := by
  induction l generalizing a with
  | nil =>
    obtain rfl : a = p := Option.some.inj hp
    exact ⟨Function.update_self .., Function.update_self ..⟩
  | cons c l ih =>
    have hpmem : p ∈ c :: l := List.mem_of_getLast? (by rwa [List.getLast?_cons_cons] at hp)
    have hap : a ≠ p := fun heq => (List.nodup_cons.mp hnodup).1 (heq ▸ hpmem)
    have hct : c ≠ t := fun heq => ht (heq ▸ List.mem_cons_self)
    refine ⟨⟨?_, ?_⟩, ?_⟩
    · rw [Function.update_of_ne hap]
      exact h.1.1
    · rw [Function.update_of_ne hct]
      exact h.1.2
    · exact ih h.2 (by rwa [List.getLast?_cons_cons] at hp) (List.nodup_cons.mp hnodup).2
        fun hm => ht (List.mem_cons_of_mem c hm)

/-- **Inserting behind a cell.** -/
theorem Ring.insert {x s : α} (h : Ring next prev (front ++ a :: back)) (hs : next a = some s)
    (hx : x ∉ front ++ a :: back) :
    Ring (Function.update (Function.update next x (some s)) a (some x))
      (Function.update (Function.update prev x (some a)) s (some x))
      (front ++ a :: x :: back) := by
  obtain ⟨hnodup, hpath⟩ := ring_iff.mp h
  have hmem : x ∉ a :: (back ++ front) := by
    intro hm
    refine hx ?_
    rw [List.mem_append, List.mem_cons]
    rw [List.mem_cons, List.mem_append] at hm
    tauto
  rw [ring_iff, List.cons_append]
  refine ⟨(List.Perm.swap x a _).nodup_iff.mpr (List.nodup_cons.mpr ⟨hmem, hnodup⟩), ?_⟩
  exact hpath.insert hs hnodup (List.nodup_cons.mp hnodup).1 hmem
    (fun heq => hmem (heq ▸ List.mem_cons_self))

/-- **Taking a cell out**: its neighbours, `p` and `s`, are linked to each other. -/
theorem Ring.remove {p s : α} (h : Ring next prev (front ++ a :: back))
    (hp : (back ++ front).getLast? = some p) (hs : (back ++ front).head? = some s) :
    Ring (Function.update next p (some s)) (Function.update prev s (some p))
      (front ++ back) := by
  obtain ⟨hnodup, hpath⟩ := ring_iff.mp h
  have hrest : Ring (Function.update next p (some s)) (Function.update prev s (some p))
      (back ++ front) := by
    cases hl : back ++ front with
    | nil => trivial
    | cons c l =>
      rw [hl] at hnodup hpath hp hs
      obtain rfl : c = s := Option.some.inj hs
      have hcl := (List.nodup_cons.mp hnodup).2
      exact ⟨hcl, hpath.2.redirect hp hcl (List.nodup_cons.mp hcl).1⟩
  -- the same ring, seen from the first cell behind the one taken out or in front of it
  cases back with
  | nil => rwa [List.append_nil]
  | cons b back =>
    rw [ring_iff]
    rw [← List.nil_append (b :: back ++ front), List.cons_append, ring_iff,
      List.append_nil] at hrest
    exact hrest

end Update

end Trtp.Links
