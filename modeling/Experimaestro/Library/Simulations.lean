/-
Module: Experimaestro.Library.Simulations
Layer: Library
Purpose: Simulation between two transition systems, where a step of the first is matched by one of the second or by
  none: what the first reaches is related to something that the second reaches. Systems of several components are
  related component by component; a list of components is changed at one index at a time.
Imports: Mathlib.Data.List.Forall2, Experimaestro.Library.TransitionSystem
Trusted boundary: none (fully proved)
Main exports: System.RunUnder.simulation, forall₂_set, forall₂_set_left, forall₂_getElem?, forall₂_concat
Open obligations: none
-/
import Mathlib.Data.List.Forall2
import Mathlib.Tactic.Common
import Experimaestro.Library.TransitionSystem

namespace TransitionSystem

universe u v w x

/-- The simulation rule: related initial states, and related steps out of related reachable states. -/
theorem System.RunUnder.simulation {σ : Type u} {α : Type v} {τ : Type w} {β : Type x} {M : System σ α}
    {N : System τ β} {ok : σ → α → Prop} (R : σ → τ → Prop) (init : ∀ s, M.initial s → ∃ t, N.initial t ∧ R s t)
    (keep : ∀ s a s' t, M.RunUnder ok s → N.Reachable t → ok s a → M.next s a s' → R s t →
      R s' t ∨ ∃ b t', N.next t b t' ∧ R s' t')
    {s : σ} (run : M.RunUnder ok s) : ∃ t, N.Reachable t ∧ R s t := by
  induction run with
  | start first =>
      obtain ⟨t, begins, related⟩ := init _ first
      exact ⟨t, .start begins, related⟩
  | step before met next ih =>
      obtain ⟨t, reached, related⟩ := ih
      rcases keep _ _ _ t before reached met next related with same | ⟨b, t', moves, after⟩
      · exact ⟨t, reached, same⟩
      · exact ⟨t', .step reached trivial moves, after⟩

section

variable {σ : Type u} {τ : Type v} {R : σ → τ → Prop} {l : List σ} {m : List τ}

/-- Components at one index are replaced by related ones. -/
theorem forall₂_set (all : List.Forall₂ R l m) {x : σ} {y : τ} (new : R x y) (i : ℕ) :
    List.Forall₂ R (l.set i x) (m.set i y) := by
  induction all generalizing i with
  | nil => exact .nil
  | cons first rest ih =>
      cases i with
      | zero => exact .cons new rest
      | succ i => exact .cons first (ih i)

/-- A component is replaced by one that is related to the same one. -/
theorem forall₂_set_left (all : List.Forall₂ R l m) {x : σ} {y : τ} {i : ℕ} (there : m[i]? = some y) (new : R x y) :
    List.Forall₂ R (l.set i x) m := by
  induction all generalizing i with
  | nil => exact .nil
  | cons first rest ih =>
      cases i with
      | zero =>
          rw [List.getElem?_cons_zero, Option.some.injEq] at there
          exact .cons (there ▸ new) rest
      | succ i => exact .cons first (ih there)

/-- A component has a related one at its index. -/
theorem forall₂_getElem? (all : List.Forall₂ R l m) {i : ℕ} {x : σ} (there : l[i]? = some x) :
    ∃ y, m[i]? = some y ∧ R x y := by
  induction all generalizing i with
  | nil => cases there
  | cons first rest ih =>
      cases i with
      | zero =>
          rw [List.getElem?_cons_zero, Option.some.injEq] at there
          exact ⟨_, rfl, there ▸ first⟩
      | succ i => exact ih there

/-- A related pair of components is added. -/
theorem forall₂_concat (all : List.Forall₂ R l m) {x : σ} {y : τ} (new : R x y) :
    List.Forall₂ R (l ++ [x]) (m ++ [y]) :=
  List.rel_append all (.cons new .nil)

end

end TransitionSystem
