import Mathlib.Tactic.Common

/-! # Machines that run by events

A machine is a function that takes a state and an event to the next state, where the
event can happen.  `Reaches` collects the states that a run leads to whose events all
meet a condition; an invariant of such runs is one that holds at the start and is kept
by every event that meets the condition.  `execute` carries out a list of events, which
is how particular runs are given.
-/
namespace UbsMem

section Machine

variable {σ ε : Type} {allow : σ → ε → Prop} {step : σ → ε → Option σ} {s s₀ : σ}

/-- The states that are reached from `s₀` by events that `allow` holds of. -/
inductive Reaches (step : σ → ε → Option σ) (allow : σ → ε → Prop) (s₀ : σ) : σ → Prop
  | refl : Reaches step allow s₀ s₀
  | next {s s' : σ} {e : ε} (h : Reaches step allow s₀ s) (hallow : allow s e)
      (hstep : step s e = some s') : Reaches step allow s₀ s'

/-- **Invariants hold along whole runs.** -/
theorem Reaches.invariant {I : σ → Prop} (h : Reaches step allow s₀ s) (h₀ : I s₀)
    (hkeep : ∀ s e s', I s → allow s e → step s e = some s' → I s') : I s := by
  induction h with
  | refl => exact h₀
  | next _ hallow hstep ih => exact hkeep _ _ _ ih hallow hstep

/-- Carry out a list of events, each of which must meet the condition. -/
def execute (step : σ → ε → Option σ) (allow : σ → ε → Bool) : σ → List ε → Option σ
  | s, [] => some s
  | s, e :: es => if allow s e then (step s e).bind fun s' => execute step allow s' es else none

/-- What is carried out is reached. -/
theorem Reaches.of_execute {test : σ → ε → Bool} (htest : ∀ s e, test s e = true → allow s e)
    {s' : σ} {es : List ε} (h : Reaches step allow s₀ s)
    (hexec : execute step test s es = some s') : Reaches step allow s₀ s' := by
  induction es generalizing s with
  | nil =>
    obtain rfl : s = s' := by simpa [execute] using hexec
    exact h
  | cons e es ih =>
    rw [execute] at hexec
    split_ifs at hexec with hok
    obtain ⟨s₁, hstep, hrest⟩ := Option.bind_eq_some_iff.mp hexec
    exact ih (h.next (htest s e hok) hstep) hrest

end Machine

end UbsMem
