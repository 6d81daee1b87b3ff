import Mathlib.Data.Option.Basic

/-!
# Runs of a partial step function

A system is a step function `step : σ → ε → Option σ` from a state and an event to the next state,
`none` where the event cannot happen. `exec` runs a list of events.

* `Along P s es`: every step the run of `es` from `s` takes satisfies `P`.
* `Along.of_inv` is the induction rule: a condition on the steps together with an invariant gives
  any property of the steps that both imply; `exec_inv` is its form for the last state.
* `Along.at` reads the property of one step off, `Along.at_of_read` of one that was evaluated.
-/

namespace Trtp.Run

variable {σ ε : Type*} {step : σ → ε → Option σ}

/-- The state after the events of a list, taken in order. -/
def exec (step : σ → ε → Option σ) : σ → List ε → Option σ
  | s, [] => some s
  | s, e :: es =>
    match step s e with
    | none => none
    | some s' => exec step s' es

/-- Every step of the run satisfies `P`; a run stops at the first event that cannot happen. -/
def Along (step : σ → ε → Option σ) (P : σ → ε → σ → Prop) : σ → List ε → Prop
  | _, [] => True
  | s, e :: es => ∀ s', step s e = some s' → P s e s' ∧ Along step P s' es

instance Along.decidable {P : σ → ε → σ → Prop} [∀ s e s', Decidable (P s e s')] :
    (s : σ) → (es : List ε) → Decidable (Along step P s es)
  | _, [] => isTrue trivial
  | s, e :: es =>
    match hs : step s e with
    | none => isTrue fun s' h => absurd (hs.symm.trans h) (by simp)
    | some s1 =>
      have := Along.decidable (P := P) s1 es
      decidable_of_iff (P s e s1 ∧ Along step P s1 es)
        ⟨fun h s' hs' => Option.some.inj (hs.symm.trans hs') ▸ h, fun h => h s1 hs⟩

theorem exec_cons_inv {s s' : σ} {e : ε} {es : List ε} (h : exec step s (e :: es) = some s') :
    ∃ s1, step s e = some s1 ∧ exec step s1 es = some s' := by
  rw [exec] at h
  cases hs : step s e with
  | none => rw [hs] at h; exact absurd h (by simp)
  | some s1 => rw [hs] at h; exact ⟨s1, rfl, h⟩

/-- **The run rule.** An invariant `I` that every step satisfying `C` keeps gives, along a run
whose steps satisfy `C`, whatever `I` and `C` give for one step. -/
theorem Along.of_inv {I : σ → Prop} {C P : σ → ε → σ → Prop}
    (hkeep : ∀ s e s', I s → C s e s' → step s e = some s' → I s')
    (hgive : ∀ s e s', I s → C s e s' → step s e = some s' → P s e s') :
    ∀ {es : List ε} {s : σ}, I s → Along step C s es → Along step P s es
  | [], _, _, _ => trivial
  | e :: _, s, hI, hC => fun s' hs =>
    ⟨hgive s e s' hI (hC s' hs).1 hs,
      Along.of_inv hkeep hgive (hkeep s e s' hI (hC s' hs).1 hs) (hC s' hs).2⟩

theorem exec_inv {I : σ → Prop} {C : σ → ε → σ → Prop}
    (hkeep : ∀ s e s', I s → C s e s' → step s e = some s' → I s') :
    ∀ {es : List ε} {s s' : σ}, I s → Along step C s es → exec step s es = some s' → I s'
  | [], s, s', hI, _, h => by
    rw [exec, Option.some.injEq] at h
    exact h ▸ hI
  | e :: es, s, s', hI, hC, h => by
    obtain ⟨s1, hs, h'⟩ := exec_cons_inv h
    exact exec_inv hkeep (hkeep s e s1 hI (hC s1 hs).1 hs) (hC s1 hs).2 h'

theorem Along.mono {P Q : σ → ε → σ → Prop}
    (h : ∀ s e s', step s e = some s' → P s e s' → Q s e s') :
    ∀ {es : List ε} {s : σ}, Along step P s es → Along step Q s es
  | [], _, _ => trivial
  | _ :: _, _, hP => fun s' hs => ⟨h _ _ s' hs (hP s' hs).1, Along.mono h (hP s' hs).2⟩

/-- A condition on the events alone. -/
theorem Along.of_forall {Q : ε → Prop} :
    ∀ {es : List ε} {s : σ}, (∀ e ∈ es, Q e) → Along step (fun _ e _ => Q e) s es
  | [], _, _ => trivial
  | e :: _, _, h => fun _ _ =>
    ⟨h e List.mem_cons_self, Along.of_forall fun e' he => h e' (List.mem_cons_of_mem e he)⟩

theorem Along.and {P Q : σ → ε → σ → Prop} :
    ∀ {es : List ε} {s : σ}, Along step P s es → Along step Q s es →
      Along step (fun s e s' => P s e s' ∧ Q s e s') s es
  | [], _, _, _ => trivial
  | _ :: _, _, hP, hQ => fun s' hs =>
    ⟨⟨(hP s' hs).1, (hQ s' hs).1⟩, Along.and (hP s' hs).2 (hQ s' hs).2⟩

/-- A run through a list and a further one stops in between. -/
theorem exec_append_inv {es es' : List ε} {s s' : σ} (h : exec step s (es ++ es') = some s') :
    ∃ s1, exec step s es = some s1 ∧ exec step s1 es' = some s' := by
  induction es generalizing s with
  | nil => exact ⟨s, rfl, h⟩
  | cons e es ih =>
    obtain ⟨s0, hs, h'⟩ := exec_cons_inv h
    obtain ⟨s1, h1, h2⟩ := ih h'
    refine ⟨s1, ?_, h2⟩
    rw [exec, hs]
    exact h1

theorem Along.left {P : σ → ε → σ → Prop} {post : List ε} :
    ∀ {pre : List ε} {s : σ}, Along step P s (pre ++ post) → Along step P s pre
  | [], _, _ => trivial
  | _ :: _, _, hP => fun s' hs => ⟨(hP s' hs).1, Along.left (hP s' hs).2⟩

/-- The property of a step in the middle. -/
theorem Along.at {P : σ → ε → σ → Prop} {e : ε} {post : List ε} :
    ∀ {pre : List ε} {s s1 s2 : σ}, Along step P s (pre ++ e :: post) →
      exec step s pre = some s1 → step s1 e = some s2 → P s1 e s2
  | [], s, s1, s2, hP, h1, h2 => by
    rw [exec, Option.some.injEq] at h1
    exact h1 ▸ (hP s2 (h1 ▸ h2)).1
  | _ :: _, _, _, _, hP, h1, h2 => by
    obtain ⟨s0, hs, h1'⟩ := exec_cons_inv h1
    exact Along.at (hP s0 hs).2 h1' h2

/-- The property of a step in the middle, of which the run was evaluated to what `read` reads. -/
theorem Along.at_of_read {β : Type*} {P : σ → ε → σ → Prop} {pre post : List ε} {e : ε} {s : σ}
    {read : σ → β} {v : β} (hP : Along step P s (pre ++ e :: post))
    (h : ((exec step s pre).bind fun s1 => (step s1 e).map read) = some v) :
    ∃ s1 s2, P s1 e s2 ∧ read s2 = v := by
  obtain ⟨s1, hexec, h⟩ := Option.bind_eq_some_iff.mp h
  obtain ⟨s2, hstep, hread⟩ := Option.map_eq_some_iff.mp h
  exact ⟨s1, s2, hP.at hexec hstep, hread⟩

end Trtp.Run
