import Mathlib.Logic.Basic

/-!
# Transition systems

States, where a run may start, and what one step may do.
-/

namespace Peryx

structure System (σ : Type) where
  start : σ → Prop
  step : σ → σ → Prop

namespace System
variable {σ : Type} (system : System σ)

inductive Reachable : σ → Prop
  | start (s : σ) (h : system.start s) : Reachable s
  | step (s t : σ) (h : Reachable s) (hstep : system.step s t) : Reachable t

theorem invariant (inv : σ → Prop) (hstart : ∀ s, system.start s → inv s)
    (hstep : ∀ s t, system.Reachable s → inv s → system.step s t → inv t) :
    ∀ s, system.Reachable s → inv s := by
  intro s h
  induction h with
  | start s h => exact hstart s h
  | step s t h ht ih => exact hstep s t h ih ht

end System
end Peryx
