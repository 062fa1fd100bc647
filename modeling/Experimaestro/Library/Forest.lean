/-
Module: Experimaestro.Library.Forest
Layer: Library
Purpose: Orders whose elements have linearly ordered upper bounds, and an operation that folds a list into
  one element. The operation keeps its first argument when the second one is above it, takes the least
  common upper bound of two other elements that have one, and a default element else. It is not symmetric,
  and an upper bound of its result need not be one of its second argument; `foldl_below_iff` and
  `foldl_below_default_iff` say what is above the result of a fold.
Imports: Mathlib.Tactic.TypeStar
Trusted boundary: none (fully proved)
Main exports: Forest, Forest.Linked, Forest.Folds, foldl_below_iff, foldl_below_default_iff
Open obligations: none
-/
import Mathlib.Tactic.TypeStar

/-- A preorder in which any two upper bounds of an element can be compared. -/
structure Forest (α : Type*) where
  below : α → α → Prop
  refl : ∀ a, below a a
  trans : ∀ {a b c}, below a b → below b c → below a c
  linear : ∀ {a b c}, below a b → below a c → below b c ∨ below c b

namespace Forest

variable {α : Type*} (F : Forest α)

/-- Two elements have a common upper bound. -/
def Linked (a b : α) : Prop := ∃ c, F.below a c ∧ F.below b c

variable {F}

/-- An element is linked to the same elements as those above it. -/
theorem linked_iff_of_below {a b e : α} (above : F.below a b) : F.Linked b e ↔ F.Linked a e := by
  constructor
  · rintro ⟨c, b_c, e_c⟩
    exact ⟨c, F.trans above b_c, e_c⟩
  · rintro ⟨c, a_c, e_c⟩
    cases F.linear above a_c with
    | inl b_c => exact ⟨c, b_c, e_c⟩
    | inr c_b => exact ⟨b, F.refl b, F.trans e_c c_b⟩

variable (F)

/-- The operation of the fold. -/
structure Folds (default : α) (join : α → α → α) : Prop where
  keeps : ∀ {a b}, F.below a b → join a b = a
  upper : ∀ {a b}, ¬ F.below a b → F.Linked a b → F.below a (join a b)
  least : ∀ {a b c}, ¬ F.below a b → F.below a c → F.below b c → F.below (join a b) c
  upper_right : ∀ {a b}, ¬ F.below a b → F.Linked a b → F.below b (join a b)
  apart : ∀ {a b}, ¬ F.Linked a b → join a b = default

variable {F} {default : α} {join : α → α → α}

namespace Folds

/-- The result is above the first argument, if the two are linked. -/
theorem below_join (folds : F.Folds default join) {a b : α} (linked : F.Linked a b) :
    F.below a (join a b) := by
  by_cases comparable : F.below a b
  · rw [folds.keeps comparable]
    exact F.refl a
  · exact folds.upper comparable linked

/-- What is above the result, apart from what is above the default: the upper bounds of the first argument
    that can be compared with the second one. -/
theorem join_below_iff (folds : F.Folds default join) {a b t : α} (proper : ¬ F.below default t) :
    F.below (join a b) t ↔ F.below a t ∧ (F.below b t ∨ F.below t b) := by
  by_cases comparable : F.below a b
  · rw [folds.keeps comparable]
    exact ⟨fun below => ⟨below, (F.linear comparable below)⟩, fun both => both.1⟩
  · constructor
    · intro below
      by_cases linked : F.Linked a b
      · have above := folds.upper comparable linked
        have above' := folds.upper_right comparable linked
        exact ⟨F.trans above below, Or.inl (F.trans above' below)⟩
      · rw [folds.apart linked] at below
        exact absurd below proper
    · rintro ⟨a_t, b_t | t_b⟩
      · exact folds.least comparable a_t b_t
      · exact absurd (F.trans a_t t_b) comparable

/-- What is above a fold, apart from what is above the default. -/
theorem foldl_below_iff (folds : F.Folds default join) {t : α} (proper : ¬ F.below default t)
    (rest : List α) (first : α) :
    F.below (rest.foldl join first) t ↔
      F.below first t ∧ ∀ e ∈ rest, F.below e t ∨ F.below t e := by
  induction rest generalizing first with
  | nil => simp
  | cons e rest ih =>
      simp only [List.foldl_cons, ih, folds.join_below_iff proper, List.mem_cons, forall_eq_or_imp, and_assoc]

/-- The default is above the result exactly when it is above the first argument or the two are not
    linked. -/
theorem join_below_default_iff (folds : F.Folds default join)
    (top : ∀ {a}, F.below default a → F.below a default) {a b : α} :
    F.below (join a b) default ↔ F.below a default ∨ ¬ F.Linked a b := by
  by_cases linked : F.Linked a b
  · constructor
    · exact fun below => Or.inl (F.trans (folds.below_join linked) below)
    · intro either
      have a_top := either.resolve_right fun apart => apart linked
      by_cases comparable : F.below a b
      · rwa [folds.keeps comparable]
      · obtain ⟨c, a_c, b_c⟩ := linked
        have c_top : F.below c default := (F.linear a_c a_top).elim id top
        exact folds.least comparable a_top (F.trans b_c c_top)
  · rw [folds.apart linked]
    exact ⟨fun _ => Or.inr linked, fun _ => F.refl default⟩

/-- The default is above a fold exactly when it is above the first element or that one is not linked to
    all the others. -/
theorem foldl_below_default_iff (folds : F.Folds default join)
    (top : ∀ {a}, F.below default a → F.below a default) (rest : List α) (first : α) :
    F.below (rest.foldl join first) default ↔
      F.below first default ∨ ∃ e ∈ rest, ¬ F.Linked first e := by
  induction rest generalizing first with
  | nil => simp
  | cons e rest ih =>
      rw [List.foldl_cons, ih, folds.join_below_default_iff top]
      by_cases linked : F.Linked first e
      · simp [linked, linked_iff_of_below (folds.below_join linked)]
      · simp [linked]

end Folds

end Forest
