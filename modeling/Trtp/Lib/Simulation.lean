import Mathlib.Logic.Relation
import Trtp.Lib.Run

/-!
# Forward simulation

A system with a partial step function, against another one that is a relation `T` on its states.
`Simulates step C T R`: from states that `R` relates, every step that satisfies `C` is matched by
some steps of `T`, or none, into related states.

* `Simulates.run`: then every run is matched.
-/

namespace Trtp.Run

variable {σ ε α : Type*} {step : σ → ε → Option σ} {C : σ → ε → σ → Prop} {T : α → α → Prop}
  {R : σ → α → Prop}

/-- Every step is matched. -/
def Simulates (step : σ → ε → Option σ) (C : σ → ε → σ → Prop) (T : α → α → Prop)
    (R : σ → α → Prop) : Prop :=
  ∀ s e s' a, R s a → C s e s' → step s e = some s' → ∃ a', Relation.ReflTransGen T a a' ∧ R s' a'

/-- **Every run is matched.** -/
theorem Simulates.run (h : Simulates step C T R) {es : List ε} {s s' : σ} {a : α} (hR : R s a)
    (hC : Along step C s es) (hs : exec step s es = some s') :
    ∃ a', Relation.ReflTransGen T a a' ∧ R s' a' := by
  induction es generalizing s a with
  | nil =>
    rw [exec, Option.some.injEq] at hs
    exact ⟨a, Relation.ReflTransGen.refl, hs ▸ hR⟩
  | cons e es ih =>
    obtain ⟨s1, hstep, hs'⟩ := exec_cons_inv hs
    obtain ⟨a1, hrun, hR1⟩ := h s e s1 a hR (hC s1 hstep).1 hstep
    obtain ⟨a', hrun', hR'⟩ := ih hR1 (hC s1 hstep).2 hs'
    exact ⟨a', hrun.trans hrun', hR'⟩

end Trtp.Run
