import Mathlib.Data.Nat.Notation
import Trtp.Lib.Run

/-!
# Sums along a run

`total step f s es` adds up what `f` says of each step the run of `es` from `s` takes, and
`collect step f s es` lists what it gives.

* `total_le`: **the rule of the potential.** Where a step costs no more than its credit and what it
  takes from a potential, a run costs no more than its credits and the potential it starts with.
* `total_eq`: a value that every step raises by `f` is raised by the sum.
* `total_le_countP`: where only some events have a cost, and at most `c` each.
* `collect_inv`: **the rule of the history.** An invariant of the state together with what was
  collected so far.
-/

namespace Trtp.Run

variable {σ ε : Type*} {step : σ → ε → Option σ} {f g : σ → ε → ℕ} {I : σ → Prop}
  {C : σ → ε → σ → Prop}

/-- The sum of `f` over the steps of a run. -/
def total (step : σ → ε → Option σ) (f : σ → ε → ℕ) : σ → List ε → ℕ
  | _, [] => 0
  | s, e :: es =>
    match step s e with
    | none => 0
    | some s' => f s e + total step f s' es

theorem total_cons {s s1 : σ} {e : ε} {es : List ε} (h : step s e = some s1) :
    total step f s (e :: es) = f s e + total step f s1 es := by
  rw [total, h]

/-- **The rule of the potential**, under an invariant of the steps that satisfy `C`. -/
theorem total_le {V : σ → ℕ} (hkeep : ∀ s e s', I s → C s e s' → step s e = some s' → I s')
    (hpay : ∀ s e s', I s → C s e s' → step s e = some s' → f s e + V s' ≤ V s + g s e) :
    ∀ {es : List ε} {s s' : σ}, I s → Along step C s es → exec step s es = some s' →
      total step f s es + V s' ≤ V s + total step g s es
  | [], s, s', _, _, h => by
    rw [exec, Option.some.injEq] at h
    subst h
    exact Nat.le_of_eq (Nat.zero_add (V s))
  | e :: es, s, s', hI, hC, h => by
    obtain ⟨s1, hs, h'⟩ := exec_cons_inv h
    have hone := hpay s e s1 hI (hC s1 hs).1 hs
    have hrest := total_le hkeep hpay (hkeep s e s1 hI (hC s1 hs).1 hs) (hC s1 hs).2 h'
    rw [total_cons hs, total_cons hs]
    omega

/-- A value that counts. -/
theorem total_eq {V : σ → ℕ} (hkeep : ∀ s e s', I s → C s e s' → step s e = some s' → I s')
    (hcount : ∀ s e s', I s → C s e s' → step s e = some s' → V s' = V s + f s e) :
    ∀ {es : List ε} {s s' : σ}, I s → Along step C s es → exec step s es = some s' →
      V s' = V s + total step f s es
  | [], s, s', _, _, h => by
    rw [exec, Option.some.injEq] at h
    rw [h, total, Nat.add_zero]
  | e :: es, s, s', hI, hC, h => by
    obtain ⟨s1, hs, h'⟩ := exec_cons_inv h
    have hone := hcount s e s1 hI (hC s1 hs).1 hs
    have hrest := total_eq hkeep hcount (hkeep s e s1 hI (hC s1 hs).1 hs) (hC s1 hs).2 h'
    rw [total_cons hs]
    omega

theorem total_add (f g : σ → ε → ℕ) (s : σ) (es : List ε) :
    total step (fun s e => f s e + g s e) s es = total step f s es + total step g s es := by
  induction es generalizing s with
  | nil => rfl
  | cons e es ih =>
    unfold total
    cases step s e with
    | none => rfl
    | some s1 =>
      simp only [ih]
      omega

theorem total_mono (h : ∀ s e, f s e ≤ g s e) (s : σ) (es : List ε) :
    total step f s es ≤ total step g s es := by
  induction es generalizing s with
  | nil => exact Nat.le_refl _
  | cons e es ih =>
    unfold total
    cases step s e with
    | none => exact Nat.le_refl _
    | some s1 => exact Nat.add_le_add (h s e) (ih s1)

/-- Only the events with `p` cost anything, and at most `c`. -/
theorem total_le_countP {p : ε → Bool} {c : ℕ} (h : ∀ s e, f s e ≤ if p e then c else 0) (s : σ)
    (es : List ε) : total step f s es ≤ c * es.countP p := by
  induction es generalizing s with
  | nil => exact Nat.zero_le _
  | cons e es ih =>
    have hone := h s e
    rw [List.countP_cons]
    unfold total
    cases step s e with
    | none => exact Nat.zero_le _
    | some s1 =>
      have hrest := ih s1
      cases hp : p e with
      | true =>
        rw [hp, if_pos rfl] at hone
        rw [if_pos rfl, Nat.mul_add, Nat.mul_one]
        simp only
        omega
      | false =>
        rw [hp, if_neg (by simp)] at hone
        rw [if_neg (by simp), Nat.add_zero]
        simp only
        omega

/-! ## Histories -/

/-- What `f` gives for the steps of a run, in order. -/
def collect {α : Type*} (step : σ → ε → Option σ) (f : σ → ε → List α) : σ → List ε → List α
  | _, [] => []
  | s, e :: es =>
    match step s e with
    | none => []
    | some s' => f s e ++ collect step f s' es

theorem collect_cons {α : Type*} {f : σ → ε → List α} {s s1 : σ} {e : ε} {es : List ε}
    (h : step s e = some s1) : collect step f s (e :: es) = f s e ++ collect step f s1 es := by
  rw [collect, h]

/-- **The rule of the history**, for two of them. -/
theorem collect_inv {α β : Type*} {f : σ → ε → List α} {g : σ → ε → List β}
    {I : σ → List α → List β → Prop}
    (hkeep : ∀ s xs ys e s', I s xs ys → C s e s' → step s e = some s' →
      I s' (xs ++ f s e) (ys ++ g s e)) :
    ∀ {es : List ε} {s s' : σ} {xs : List α} {ys : List β}, I s xs ys → Along step C s es →
      exec step s es = some s' → I s' (xs ++ collect step f s es) (ys ++ collect step g s es)
  | [], s, s', xs, ys, hI, _, h => by
    rw [exec, Option.some.injEq] at h
    rw [← h, collect, collect, List.append_nil, List.append_nil]
    exact hI
  | e :: es, s, s', xs, ys, hI, hC, h => by
    obtain ⟨s1, hs, h'⟩ := exec_cons_inv h
    have hone := hkeep s xs ys e s1 hI (hC s1 hs).1 hs
    have hrest := collect_inv hkeep hone (hC s1 hs).2 h'
    rw [collect_cons hs, collect_cons hs, ← List.append_assoc, ← List.append_assoc]
    exact hrest

end Trtp.Run
