import Mathlib.Data.Nat.Notation
import Trtp.Lib.Run

/-!
# What can be reached from a state

`Reaches step C s s'`: some run whose steps all satisfy `C` leads from `s` to `s'`.

* `Reaches.trans`, `Reaches.head`: runs are put together from their parts.
* `Reaches.keeps`: an invariant of the `C`-steps holds at the other end.
* `exists_reaches`: **the measure rule.** Where a measure can always be made smaller until a goal is
  met, the goal can be met from everywhere.
-/

namespace Trtp.Run

variable {σ ε : Type*} {step : σ → ε → Option σ} {C : σ → ε → σ → Prop}

/-- A run whose steps satisfy `C` leads from one state to the other. -/
def Reaches (step : σ → ε → Option σ) (C : σ → ε → σ → Prop) (s s' : σ) : Prop :=
  ∃ es, Along step C s es ∧ exec step s es = some s'

theorem Reaches.refl (s : σ) : Reaches step C s s := ⟨[], trivial, rfl⟩

/-- One step in front. -/
theorem Reaches.head {s s1 s' : σ} {e : ε} (hs : step s e = some s1) (hC : C s e s1)
    (h : Reaches step C s1 s') : Reaches step C s s' := by
  obtain ⟨es, halong, hexec⟩ := h
  refine ⟨e :: es, fun s2 hs2 => ?_, ?_⟩
  · rw [hs, Option.some.injEq] at hs2
    exact hs2 ▸ ⟨hC, halong⟩
  · rw [exec, hs]
    exact hexec

theorem Reaches.single {s s' : σ} {e : ε} (hs : step s e = some s') (hC : C s e s') :
    Reaches step C s s' := Reaches.head hs hC (Reaches.refl s')

theorem Reaches.trans {s s1 s' : σ} (h : Reaches step C s s1) (h' : Reaches step C s1 s') :
    Reaches step C s s' := by
  obtain ⟨es, halong, hexec⟩ := h
  induction es generalizing s with
  | nil =>
    rw [exec, Option.some.injEq] at hexec
    exact hexec ▸ h'
  | cons e es ih =>
    obtain ⟨s0, hs, hexec'⟩ := exec_cons_inv hexec
    exact Reaches.head hs (halong s0 hs).1 (ih (halong s0 hs).2 hexec')

/-- An invariant of the steps that satisfy `C`. -/
theorem Reaches.keeps {I : σ → Prop}
    (hkeep : ∀ s e s', I s → C s e s' → step s e = some s' → I s') {s s' : σ}
    (h : Reaches step C s s') (hI : I s) : I s' := by
  obtain ⟨es, halong, hexec⟩ := h
  exact exec_inv hkeep hI halong hexec

/-- **The measure rule.** From a state with `I`, either the goal can be reached, or another state
with `I` and a smaller measure. -/
theorem exists_reaches {I Q : σ → Prop} (μ : σ → ℕ)
    (h : ∀ s, I s → ∃ s', Reaches step C s s' ∧ (Q s' ∨ I s' ∧ μ s' < μ s)) {s : σ} (hI : I s) :
    ∃ s', Reaches step C s s' ∧ Q s' := by
  induction hn : μ s using Nat.strongRecOn generalizing s with
  | ind n ih =>
    obtain ⟨s1, hreach, hQ | ⟨hI1, hlt⟩⟩ := h s hI
    · exact ⟨s1, hreach, hQ⟩
    · obtain ⟨s', hreach', hQ⟩ := ih (μ s1) (hn ▸ hlt) hI1 rfl
      exact ⟨s', hreach.trans hreach', hQ⟩

end Trtp.Run
