import Mathlib.Tactic.Common

/-!
# Transition Systems with Events

Systems that take one step after another, some of which can be seen from
outside, and what it means for one of them to behave like another.

A step carries an event or none. A run collects the events of its steps, so two
systems can be compared although one of them takes steps that the other does
not have. That is the usual situation: the concrete system moves a message, and
nothing happens in the abstract one.

`Simulation` asks for as little as possible. A step of the concrete system is
answered by any number of steps of the abstract one, as long as the events come
out the same. `Simulation.run` is what it buys: whatever can be observed of the
concrete system can be observed of the abstract one.

## Main definitions

* `Run`: The runs from a state, with the events seen along them.
* `Simulation`: Every step of one system is answered by the other.

## Theorems

* `Run.append`: Runs one after the other.
* `Simulation.run`: Every run of one system is answered by the other.
* `Simulation.comp`: Simulations one above the other.
-/

namespace Lts

variable {σ τ υ ε : Type}

/-- The runs from `s₀`, with the events seen along them. A step without an event
    is internal. -/
inductive Run (step : σ → Option ε → σ → Prop) (s₀ : σ) : List ε → σ → Prop
  | start : Run step s₀ [] s₀
  | next {trace : List ε} {s s' : σ} {e : Option ε} (run : Run step s₀ trace s)
      (h : step s e s') : Run step s₀ (trace ++ e.toList) s'

section

variable {step : σ → Option ε → σ → Prop} {s₀ s s' : σ} {trace trace' : List ε}

/-- A single step is a run. -/
theorem Run.single {e : Option ε} (h : step s e s') : Run step s e.toList s' :=
  Run.next .start h

theorem Run.append (run : Run step s₀ trace s) (run' : Run step s trace' s') :
    Run step s₀ (trace ++ trace') s' := by
  induction run' with
  | start => rwa [List.append_nil]
  | next _ h ih =>
    rw [← List.append_assoc]
    exact ih.next h

end

/-- Every step of the first system is answered by the second one, with the same
    events, and the states stay related. -/
def Simulation (step : σ → Option ε → σ → Prop) (step' : τ → Option ε → τ → Prop)
    (R : σ → τ → Prop) : Prop :=
  ∀ s e s' t, R s t → step s e s' → ∃ t', Run step' t e.toList t' ∧ R s' t'

section

variable {step₁ : σ → Option ε → σ → Prop} {step₂ : τ → Option ε → τ → Prop}
  {step₃ : υ → Option ε → υ → Prop} {R : σ → τ → Prop} {R' : τ → υ → Prop}

theorem Simulation.run (hsim : Simulation step₁ step₂ R) {s₀ s : σ} {t₀ : τ} {trace : List ε}
    (h₀ : R s₀ t₀) (run : Run step₁ s₀ trace s) : ∃ t, Run step₂ t₀ trace t ∧ R s t := by
  induction run with
  | start => exact ⟨t₀, .start, h₀⟩
  | next _ h ih =>
    obtain ⟨t, hrun, hR⟩ := ih
    obtain ⟨t', hrun', hR'⟩ := hsim _ _ _ _ hR h
    exact ⟨t', hrun.append hrun', hR'⟩

theorem Simulation.comp (h₁₂ : Simulation step₁ step₂ R) (h₂₃ : Simulation step₂ step₃ R') :
    Simulation step₁ step₃ fun s u => ∃ t, R s t ∧ R' t u := by
  rintro s e s' u ⟨t, hR, hR'⟩ h
  obtain ⟨t', hrun, hRt⟩ := h₁₂ s e s' t hR h
  obtain ⟨u', hrun', hRu⟩ := h₂₃.run hR' hrun
  exact ⟨u', hrun', t', hRt, hRu⟩

end

end Lts
