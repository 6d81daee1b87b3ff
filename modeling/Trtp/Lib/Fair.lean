import Mathlib.Order.Filter.AtTopBot.Basic
import Trtp.Lib.Run

/-!
# Runs without an end

An endless run gives a state for every moment and the event that leads to the next one, `none` where
nothing happens: a run that is over stays where it is. What a scheduler or a channel owes is said
of the moments, with `∃ᶠ i in atTop` for what happens again and again.

* `Endless.inv`: an invariant of the steps holds at every moment.
* `exists_stable`: what never falls and has a ceiling stands still in the end.
* `Endless.exists_goal`: **the rule of the ceiling.** A run whose measure never falls and stays
  below a ceiling meets its goal, when it cannot stand still for ever without.
* `Endless.occurs`: an event that a state waits for happens, when the run cannot stay there.
* `frequently_later`: what follows upon something that happens again and again does so too.
* `endless_unroll`: a run through a list of events, after which nothing happens.
-/

namespace Trtp.Run

open Filter

variable {σ ε : Type*} {step : σ → ε → Option σ} {C : σ → ε → σ → Prop} {run : ℕ → σ}
  {event : ℕ → Option ε} {I G : σ → Prop}

/-- At every moment nothing happens, or a step that satisfies `C`. -/
def Endless (step : σ → ε → Option σ) (C : σ → ε → σ → Prop) (run : ℕ → σ)
    (event : ℕ → Option ε) : Prop :=
  ∀ i, event i = none ∧ run (i + 1) = run i ∨
    ∃ e, event i = some e ∧ C (run i) e (run (i + 1)) ∧ step (run i) e = some (run (i + 1))

theorem Endless.step_of {i : ℕ} {e : ε} (h : Endless step C run event) (he : event i = some e) :
    C (run i) e (run (i + 1)) ∧ step (run i) e = some (run (i + 1)) := by
  rcases h i with ⟨hnone, -⟩ | ⟨e', he', hs⟩
  · rw [he] at hnone
    exact absurd hnone (by simp)
  · rw [he, Option.some.injEq] at he'
    exact he' ▸ hs

theorem Endless.weaken {C' : σ → ε → σ → Prop} (h : Endless step C run event)
    (hC : ∀ s e s', C s e s' → C' s e s') : Endless step C' run event := fun i =>
  (h i).imp_right fun ⟨e, he, hstep, hs⟩ => ⟨e, he, hC _ _ _ hstep, hs⟩

theorem Endless.inv (h : Endless step C run event)
    (hkeep : ∀ s e s', I s → C s e s' → step s e = some s' → I s') (h0 : I (run 0)) (i : ℕ) :
    I (run i) := by
  induction i with
  | zero => exact h0
  | succ i ih =>
    rcases h i with ⟨-, heq⟩ | ⟨e, -, hC, hs⟩
    · exact heq ▸ ih
    · exact hkeep _ e _ ih hC hs

/-! ## Progress -/

/-- What no step lowers. -/
theorem Endless.monotone {V : σ → ℕ} (h : Endless step C run event) (hI : ∀ i, I (run i))
    (hup : ∀ s e s', I s → C s e s' → step s e = some s' → V s ≤ V s') :
    Monotone fun i => V (run i) := by
  refine monotone_nat_of_le_succ fun i => ?_
  rcases h i with ⟨-, heq⟩ | ⟨e, -, hC, hs⟩
  · exact (congrArg V heq).ge
  · exact hup _ e _ (hI i) hC hs

theorem exists_stable {f : ℕ → ℕ} (hmono : Monotone f) {b : ℕ} (hle : ∀ i, f i ≤ b) :
    ∃ i, ∀ j, i ≤ j → f j = f i := by
  -- on the room that is left below the ceiling
  suffices key : ∀ d i, b - f i = d → ∃ i, ∀ j, i ≤ j → f j = f i from key _ 0 rfl
  intro d
  induction d using Nat.strongRecOn with
  | ind d ih =>
    intro i hd
    by_cases hstay : ∀ j, i ≤ j → f j = f i
    · exact ⟨i, hstay⟩
    · push Not at hstay
      obtain ⟨j, hij, hne⟩ := hstay
      have hup : f i ≤ f j := hmono hij
      have hbound := hle j
      exact ih (b - f j) (by omega) j rfl

/-- **The rule of the ceiling.** -/
theorem Endless.exists_goal {V : σ → ℕ} {b : ℕ} (h : Endless step C run event)
    (hI : ∀ i, I (run i)) (hup : ∀ s e s', I s → C s e s' → step s e = some s' → V s ≤ V s')
    (hle : ∀ s, I s → V s ≤ b)
    (hmoves : ∀ i, (∀ j, i ≤ j → V (run j) = V (run i)) → ∃ j, G (run j)) : ∃ i, G (run i) := by
  obtain ⟨i, hstable⟩ := exists_stable (h.monotone hI hup) fun i => hle _ (hI i)
  exact hmoves i hstable

/-- A state in which only one kind of event leads on: such an event happens, unless the run stays
there for ever. -/
theorem Endless.occurs {W : σ → Prop} {E : ε → Prop} {i : ℕ} (h : Endless step C run event)
    (hkeep : ∀ s e s', W s → ¬ E e → C s e s' → step s e = some s' → W s') (hW : W (run i))
    (hleaves : ∃ j, i ≤ j ∧ ¬ W (run j)) :
    ∃ j, i ≤ j ∧ W (run j) ∧ ∃ e, event j = some e ∧ E e := by
  by_contra hnot
  push Not at hnot
  obtain ⟨j, hij, hleft⟩ := hleaves
  refine hleft (Nat.le_induction hW (fun k hik hk => ?_) j hij)
  rcases h k with ⟨-, heq⟩ | ⟨e, he, hC, hs⟩
  · exact heq ▸ hk
  · exact hkeep _ e _ hk (hnot k hik hk e he) hC hs

/-- What follows upon something that happens again and again. -/
theorem frequently_later {P Q : ℕ → Prop} (h : ∃ᶠ i in atTop, P i)
    (hlater : ∀ i, P i → ∃ j, i ≤ j ∧ Q j) : ∃ᶠ i in atTop, Q i := by
  rw [frequently_atTop] at h ⊢
  intro i
  obtain ⟨j, hij, hj⟩ := h i
  obtain ⟨k, hjk, hk⟩ := hlater j hj
  exact ⟨k, hij.trans hjk, hk⟩

/-! ## Runs that are over -/

/-- The states of the run of a list, and the last one for ever. -/
def unroll (step : σ → ε → Option σ) : σ → List ε → ℕ → σ
  | s, [], _ => s
  | s, _ :: _, 0 => s
  | s, e :: es, i + 1 =>
    match step s e with
    | none => s
    | some s' => unroll step s' es i

theorem unroll_zero (s : σ) (es : List ε) : unroll step s es 0 = s := by
  cases es <;> rfl

theorem unroll_succ {s s1 : σ} {e : ε} (hs : step s e = some s1) (es : List ε) (i : ℕ) :
    unroll step s (e :: es) (i + 1) = unroll step s1 es i := by
  rw [unroll, hs]

/-- A run that was carried out, and then nothing. -/
theorem endless_unroll : ∀ {es : List ε} {s s' : σ}, exec step s es = some s' →
    Along step C s es → Endless step C (unroll step s es) fun i => es[i]?
  | [], s, s', _, _ => fun i => Or.inl ⟨rfl, by simp only [unroll]⟩
  | e :: es, s, s', hexec, hC => by
    obtain ⟨s1, hs, hexec'⟩ := exec_cons_inv hexec
    obtain ⟨hstep, hrest⟩ := hC s1 hs
    rintro (_ | i)
    · refine Or.inr ⟨e, rfl, ?_⟩
      rw [unroll_succ hs, unroll_zero, unroll_zero]
      exact ⟨hstep, hs⟩
    · rw [unroll_succ hs, unroll_succ hs]
      exact endless_unroll hexec' hrest i

theorem unroll_of_le : ∀ {es : List ε} {s s' : σ} {i : ℕ}, exec step s es = some s' →
    es.length ≤ i → unroll step s es i = s'
  | [], s, s', i, hexec, _ => by
    rw [exec, Option.some.injEq] at hexec
    rw [unroll, hexec]
  | e :: es, s, s', 0, _, hle => absurd hle (by simp)
  | e :: es, s, s', i + 1, hexec, hle => by
    obtain ⟨s1, hs, hexec'⟩ := exec_cons_inv hexec
    rw [unroll_succ hs]
    exact unroll_of_le hexec' (by simpa using hle)

end Trtp.Run
