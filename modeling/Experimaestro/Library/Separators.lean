/-
Module: Experimaestro.Library.Separators
Layer: Library
Purpose: Lists that a separator divides into pieces, as dots divide names and slashes divide paths. `lastIndex` finds
  the last separator; the pieces are those of `List.splitOn`, and `List.intercalate` puts them together again.
Imports: Mathlib.Data.List.Basic
Trusted boundary: none (fully proved)
Main exports: lastIndex, lastIndex_eq_none, lastIndex_append, split_at_last, intercalate_append,
  intercalate_snoc, split_at_first_unique, not_mem_of_mem_splitOn, splitOn_snoc
Open obligations: none
-/
import Mathlib.Data.List.Basic

namespace Separators

variable {α : Type*}

/-! ### The last separator -/

section

variable [DecidableEq α]

/-- The position of the last occurrence of an element. -/
def lastIndex (c : α) : List α → Option ℕ
  | [] => none
  | x :: rest =>
      match lastIndex c rest with
      | some i => some (i + 1)
      | none => if x = c then some 0 else none

theorem lastIndex_eq_none {c : α} {l : List α} : lastIndex c l = none ↔ c ∉ l := by
  induction l with
  | nil => simp [lastIndex]
  | cons x rest ih =>
      rw [lastIndex, List.mem_cons, not_or, ← ih]
      cases lastIndex c rest with
      | some i => simp
      | none => simp [eq_comm]

/-- What precedes a separator after which there is none. -/
theorem lastIndex_append {c : α} (front : List α) {piece : List α} (apart : c ∉ piece) :
    lastIndex c (front ++ c :: piece) = some front.length := by
  induction front with
  | nil => rw [List.nil_append, lastIndex, lastIndex_eq_none.mpr apart, if_pos rfl, List.length_nil]
  | cons x rest ih => rw [List.cons_append, lastIndex, ih, List.length_cons]

end

/-- A list with a separator is what precedes the last one, and the piece behind it. -/
theorem split_at_last {c : α} {l : List α} (inside : c ∈ l) :
    ∃ front piece, l = front ++ c :: piece ∧ c ∉ piece := by
  obtain ⟨piece, front, reversed, apart⟩ := List.eq_append_cons_of_mem (List.mem_reverse.mpr inside)
  refine ⟨front.reverse, piece.reverse, ?_, ?_⟩
  · rw [← List.reverse_reverse l, reversed]
    simp
  · rwa [List.mem_reverse]

/-! ### Pieces -/

theorem intercalate_append (c : α) {pieces others : List (List α)} (some_first : pieces ≠ [])
    (some_last : others ≠ []) :
    [c].intercalate (pieces ++ others) = [c].intercalate pieces ++ c :: [c].intercalate others := by
  induction pieces with
  | nil => exact absurd rfl some_first
  | cons piece rest ih =>
      cases rest with
      | nil =>
          rw [List.singleton_append, List.intercalate_cons_of_ne_nil some_last, List.intercalate_singleton]
          simp
      | cons next rest =>
          rw [List.cons_append, List.intercalate_cons_of_ne_nil (by simp), ih (List.cons_ne_nil _ _),
            List.intercalate_cons_of_ne_nil (List.cons_ne_nil _ _)]
          simp

/-- One more piece. -/
theorem intercalate_snoc (c : α) {pieces : List (List α)} (some_first : pieces ≠ []) (piece : List α) :
    [c].intercalate (pieces ++ [piece]) = [c].intercalate pieces ++ c :: piece := by
  rw [intercalate_append c some_first (List.cons_ne_nil _ _), List.intercalate_singleton]

/-- A list is cut at its first separator in one way only. -/
theorem split_at_first_unique {c : α} {front front' rest rest' : List α} (apart : c ∉ front) (apart' : c ∉ front')
    (same : front ++ c :: rest = front' ++ c :: rest') : front = front' ∧ rest = rest' := by
  induction front generalizing front' with
  | nil =>
      cases front' with
      | nil => exact ⟨rfl, (List.cons.inj same).2⟩
      | cons x others => exact absurd ((List.cons.inj same).1 ▸ List.mem_cons_self) apart'
  | cons x others ih =>
      cases front' with
      | nil => exact absurd ((List.cons.inj same).1 ▸ List.mem_cons_self) apart
      | cons y others' =>
          obtain ⟨first, remaining⟩ := List.cons.inj same
          obtain ⟨fronts, rests⟩ := ih (List.not_mem_of_not_mem_cons apart)
            (List.not_mem_of_not_mem_cons apart') remaining
          exact ⟨by rw [first, fronts], rests⟩

/-- No piece has a separator. -/
theorem not_mem_of_mem_splitOn [DecidableEq α] {c : α} {l piece : List α} (member : piece ∈ l.splitOn c) :
    c ∉ piece := by
  induction l generalizing piece with
  | nil =>
      rw [List.splitOn_nil, List.mem_singleton] at member
      rw [member]
      exact List.not_mem_nil
  | cons x rest ih =>
      rw [List.splitOn_cons_eq_if_modifyHead] at member
      split at member
      · rcases List.mem_cons.mp member with rfl | later
        · exact List.not_mem_nil
        · exact ih later
      · rename_i other
        cases pieces : rest.splitOn c with
        | nil => exact absurd pieces (List.splitOn_ne_nil c rest)
        | cons first others =>
            rw [pieces] at member ih
            rcases List.mem_cons.mp member with rfl | later
            · have apart := ih List.mem_cons_self
              simp only [List.mem_cons, not_or]
              exact ⟨fun same => other (by simp [same]), apart⟩
            · exact ih (List.mem_cons_of_mem _ later)

/-- The piece behind the last separator is the last one. -/
theorem splitOn_snoc [DecidableEq α] {c : α} (front : List α) {piece : List α} (apart : c ∉ piece) :
    (front ++ c :: piece).splitOn c = front.splitOn c ++ [piece] := by
  have whole : front ++ c :: piece = [c].intercalate (front.splitOn c ++ [piece]) := by
    rw [intercalate_snoc c (List.splitOn_ne_nil c front), List.intercalate_splitOn]
  rw [whole]
  apply List.splitOn_intercalate
  · intro other member
    rcases List.mem_append.mp member with inside | last
    · exact not_mem_of_mem_splitOn inside
    · rwa [List.mem_singleton.mp last]
  · exact List.append_ne_nil_of_right_ne_nil _ (List.cons_ne_nil _ _)

end Separators
