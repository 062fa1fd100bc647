/-
Module: Experimaestro.Library.Progress
Layer: Library
Purpose: How far a partial step function can be taken with actions of a chosen class. What every such
  step keeps holds after any list of them; a measure that every such step decreases bounds the length of
  these lists, and then some list of them leads to a state in which none of them is enabled.
Imports: Mathlib.Logic.Basic, Experimaestro.Library.TransitionSystem
Trusted boundary: none (fully proved)
Main exports: runActions_keeps, System.RunUnder.runActions, runActions_of_guarded, length_add_measure_le,
  exists_exhausted
Open obligations: none
-/
import Mathlib.Logic.Basic
import Experimaestro.Library.TransitionSystem

namespace TransitionSystem

universe u v

variable {σ : Type u} {α : Type v} {step : α → σ → Option σ} (allowed : α → Prop)

/-- No allowed action is enabled. -/
def Exhausted (step : α → σ → Option σ) (allowed : α → Prop) (s : σ) : Prop :=
  ∀ a, allowed a → step a s = none

/-- What every allowed step keeps is kept by a list of them. -/
theorem runActions_keeps (inv : σ → Prop)
    (keep : ∀ s a s', allowed a → step a s = some s' → inv s → inv s') {actions : List α} {s s' : σ}
    (all : ∀ a ∈ actions, allowed a) (executed : runActions step actions s = some s')
    (before : inv s) : inv s' := by
  induction actions generalizing s with
  | nil =>
      simp only [runActions, Option.some.injEq] at executed
      exact executed ▸ before
  | cons a rest ih =>
      simp only [runActions, Option.bind_eq_some_iff] at executed
      obtain ⟨mid, first, others⟩ := executed
      apply ih (fun b member => all b (List.mem_cons_of_mem a member)) others
      exact keep s a mid (all a List.mem_cons_self) first before

/-- A run under a condition goes on with actions that meet it in every state. -/
theorem System.RunUnder.runActions {M : System σ α} {ok : σ → α → Prop}
    (takes : ∀ s a s', step a s = some s' → M.next s a s') {actions : List α} {s s' : σ}
    (all : ∀ a ∈ actions, ∀ s, ok s a) (executed : TransitionSystem.runActions step actions s = some s')
    (run : M.RunUnder ok s) : M.RunUnder ok s' :=
  runActions_keeps (fun a => ∀ s, ok s a) (M.RunUnder ok)
    (fun s a s' may first before => .step before (may s) (takes s a s' first)) all executed run

/-- Actions of a restricted step function are actions. -/
theorem runActions_of_guarded {ok : σ → α → Prop} [∀ s a, Decidable (ok s a)] {actions : List α} {s s' : σ}
    (executed : runActions (guarded ok step) actions s = some s') : runActions step actions s = some s' := by
  induction actions generalizing s with
  | nil => exact executed
  | cons a rest ih =>
      simp only [runActions, guarded, Option.bind_eq_some_iff, Option.ite_none_right_eq_some] at executed ⊢
      obtain ⟨mid, met, others⟩ := executed
      exact ⟨mid, met.2, ih others⟩

/-- A measure that every allowed step decreases bounds the length of a list of them. -/
theorem length_add_measure_le (measure : σ → Nat)
    (drops : ∀ s a s', allowed a → step a s = some s' → measure s' < measure s) {actions : List α}
    {s s' : σ} (all : ∀ a ∈ actions, allowed a) (executed : runActions step actions s = some s') :
    actions.length + measure s' ≤ measure s := by
  induction actions generalizing s with
  | nil =>
      simp only [runActions, Option.some.injEq] at executed
      simp [executed]
  | cons a rest ih =>
      simp only [runActions, Option.bind_eq_some_iff] at executed
      obtain ⟨mid, first, others⟩ := executed
      have later := ih (fun b member => all b (List.mem_cons_of_mem a member)) others
      have now := drops s a mid (all a List.mem_cons_self) first
      simp only [List.length_cons]
      omega

/-- Under such a measure, allowed actions lead from every state to one where none is enabled. -/
theorem exists_exhausted (measure : σ → Nat)
    (drops : ∀ s a s', allowed a → step a s = some s' → measure s' < measure s) (s : σ) :
    ∃ actions s', (∀ a ∈ actions, allowed a) ∧ runActions step actions s = some s' ∧
      Exhausted step allowed s' := by
  generalize size : measure s = n
  induction n using Nat.strongRecOn generalizing s with
  | ind n ih =>
      by_cases stuck : Exhausted step allowed s
      · exact ⟨[], s, fun _ member => absurd member List.not_mem_nil, rfl, stuck⟩
      · simp only [Exhausted, not_forall, exists_prop] at stuck
        obtain ⟨a, may, enabled⟩ := stuck
        obtain ⟨mid, first⟩ := Option.ne_none_iff_exists'.mp enabled
        obtain ⟨rest, s', all, executed, last⟩ := ih (measure mid) (size ▸ drops s a mid may first) mid rfl
        refine ⟨a :: rest, s', ?_, ?_, last⟩
        · intro b member
          rcases List.mem_cons.mp member with same | later
          · exact same ▸ may
          · exact all b later
        · rw [runActions, first]
          exact executed

end TransitionSystem
