/-
Module: Experimaestro.Library.TransitionSystem
Layer: Library
Purpose: Labelled transition systems and their runs. `RunUnder ok` collects the states reached by a run
  every step of which meets the condition `ok` on the state before the step and the action; `Reachable`
  is the run without a condition. The induction rule `RunUnder.invariant` turns a step lemma into a run
  lemma, and `exists_runUnder_of_runActions` reads a run off an executed list of actions.
Imports: Mathlib.Tactic.TypeStar
Trusted boundary: none (fully proved)
Main exports: System, System.RunUnder, System.Reachable, RunUnder.invariant, System.ofFunction,
  runActions, guarded, exists_runUnder_of_runActions, exists_reachable_of_runActions
Open obligations: none
-/
import Mathlib.Tactic.TypeStar

namespace TransitionSystem

universe u v

/-- A labelled transition system: the initial states, and the states one action may lead to. -/
structure System (σ : Type u) (α : Type v) where
  initial : σ → Prop
  next : σ → α → σ → Prop

namespace System

variable {σ : Type u} {α : Type v}

/-- The states reached by a run whose every step meets the condition `ok` when it is taken. -/
inductive RunUnder (M : System σ α) (ok : σ → α → Prop) : σ → Prop where
  | start {s : σ} (init : M.initial s) : RunUnder M ok s
  | step {s s' : σ} {a : α} (run : RunUnder M ok s) (met : ok s a) (next : M.next s a s') :
      RunUnder M ok s'

/-- The states reached by any run at all. -/
def Reachable (M : System σ α) : σ → Prop :=
  M.RunUnder fun _ _ => True

variable {M : System σ α} {ok : σ → α → Prop}

/-- A run under a condition is in particular a run. -/
theorem RunUnder.reachable {s : σ} (run : M.RunUnder ok s) : M.Reachable s := by
  induction run with
  | start init => exact .start init
  | step _ _ next ih => exact .step ih trivial next

/-- A run under a condition is a run under every weaker one. -/
theorem RunUnder.mono {weaker : σ → α → Prop} (implies : ∀ s a, ok s a → weaker s a) {s : σ}
    (run : M.RunUnder ok s) : M.RunUnder weaker s := by
  induction run with
  | start init => exact .start init
  | step _ met next ih => exact .step ih (implies _ _ met) next

/-- The invariant rule: a property that holds initially and that every admissible step out of a state
    of the run keeps holds in every state of the run. -/
theorem RunUnder.invariant (inv : σ → Prop) (init : ∀ s, M.initial s → inv s)
    (keep : ∀ s a s', M.RunUnder ok s → ok s a → M.next s a s' → inv s → inv s')
    {s : σ} (run : M.RunUnder ok s) : inv s := by
  induction run with
  | start first => exact init _ first
  | step run met next ih => exact keep _ _ _ run met next ih

/-- The invariant rule for runs without a condition. -/
theorem Reachable.invariant (inv : σ → Prop) (init : ∀ s, M.initial s → inv s)
    (keep : ∀ s a s', M.Reachable s → M.next s a s' → inv s → inv s')
    {s : σ} (run : M.Reachable s) : inv s :=
  RunUnder.invariant inv init (fun s a s' run _ next => keep s a s' run next) run

/-- The system of a deterministic partial step function: `none` means that the action is not enabled. -/
def ofFunction (init : σ) (step : α → σ → Option σ) : System σ α where
  initial s := s = init
  next s a s' := step a s = some s'

end System

variable {σ : Type u} {α : Type v}

/-- Execute a list of actions, the first one first. -/
def runActions (step : α → σ → Option σ) : List α → σ → Option σ
  | [], s => some s
  | a :: rest, s => (step a s).bind (runActions step rest)

theorem runActions_append (step : α → σ → Option σ) (actions others : List α) (s : σ) :
    runActions step (actions ++ others) s = (runActions step actions s).bind (runActions step others) := by
  induction actions generalizing s with
  | nil => rfl
  | cons a rest ih =>
      rw [List.cons_append, runActions, runActions, Option.bind_assoc]
      exact Option.bind_congr fun mid _ => ih mid

/-- Executing actions of a system from a reachable state ends in a reachable state. -/
theorem reachable_runActions {M : System σ α} {step : α → σ → Option σ}
    (takes : ∀ s a s', step a s = some s' → M.next s a s') :
    ∀ {actions : List α} {s s' : σ}, M.Reachable s → runActions step actions s = some s' → M.Reachable s'
  | [], _, _, run, h => by
      simp only [runActions, Option.some.injEq] at h
      exact h ▸ run
  | a :: rest, s, s', run, h => by
      simp only [runActions, Option.bind_eq_some_iff] at h
      obtain ⟨mid, first, others⟩ := h
      exact reachable_runActions takes (.step run trivial (takes s a mid first)) others

/-- A step function restricted to the actions that meet a condition. -/
def guarded (ok : σ → α → Prop) [∀ s a, Decidable (ok s a)] (step : α → σ → Option σ) (a : α) (s : σ) :
    Option σ :=
  if ok s a then step a s else none

/-- Executing actions that meet a condition, from a state of a run under it, ends in a state of the
    run. -/
theorem runUnder_runActions {init : σ} {step : α → σ → Option σ} {ok : σ → α → Prop}
    [∀ s a, Decidable (ok s a)] :
    ∀ {actions : List α} {s s' : σ}, (System.ofFunction init step).RunUnder ok s →
      runActions (guarded ok step) actions s = some s' → (System.ofFunction init step).RunUnder ok s'
  | [], _, _, run, h => by
      simp only [runActions, Option.some.injEq] at h
      exact h ▸ run
  | a :: rest, s, s', run, h => by
      simp only [runActions, guarded, Option.bind_eq_some_iff, Option.ite_none_right_eq_some] at h
      obtain ⟨mid, ⟨met, first⟩, others⟩ := h
      exact runUnder_runActions (System.RunUnder.step (a := a) run met first) others

/-- Something observed of the state that a list of actions meeting a condition ends in is true of a
    state of a run under the condition. -/
theorem exists_runUnder_of_runActions {β : Type*} {init : σ} {step : α → σ → Option σ}
    {ok : σ → α → Prop} [∀ s a, Decidable (ok s a)] {actions : List α} {observe : σ → β} {seen : β}
    (h : (runActions (guarded ok step) actions init).map observe = some seen) :
    ∃ s, (System.ofFunction init step).RunUnder ok s ∧ observe s = seen := by
  obtain ⟨s, run, observed⟩ := Option.map_eq_some_iff.mp h
  exact ⟨s, runUnder_runActions (System.RunUnder.start rfl) run, observed⟩

/-- The same without a condition. -/
theorem exists_reachable_of_runActions {β : Type*} {init : σ} {step : α → σ → Option σ}
    {actions : List α} {observe : σ → β} {seen : β}
    (h : (runActions step actions init).map observe = some seen) :
    ∃ s, (System.ofFunction init step).Reachable s ∧ observe s = seen := by
  have free : guarded (fun _ _ => True) step = step := by
    funext a s
    exact if_pos trivial
  rw [← free] at h
  exact exists_runUnder_of_runActions h

end TransitionSystem
