/-
Module: Experimaestro.Commands.Variables
Layer: Commands
Purpose: The variables of a workspace and `Workspace::find`, which looks a name up in the namespace of the key and in
  the namespaces around it. The loop goes from dot to dot, towards the beginning of the key. The position before
  the first character is `npos`, from where the search for a dot starts at the end again, so that a key that begins
  with a dot is walked through for ever unless one of its names is defined.
Imports: Experimaestro.Library.Separators, Experimaestro.Configuration.Values (tables)
Trusted boundary: human-reviewed model of Workspace::find
Main exports: rfind, before, findLoop, find, candidates, Finds, find_terminates
Open obligations: none
-/
import Mathlib.Tactic.Common
import Experimaestro.Library.Separators
import Experimaestro.Configuration.Values

namespace Experimaestro.Commands

open Experimaestro.Configuration (Str str lookup)
open Separators (lastIndex lastIndex_append lastIndex_eq_none intercalate_snoc intercalate_append)

/-! ### The search -/

/-- `'.'` -/
def dot : UInt8 := 46

/-- `rfind(c, position)`, where `none` is `npos`: the last occurrence at a position or before it. -/
def rfind (c : UInt8) (text : Str) : Option ℕ → Option ℕ
  | none => lastIndex c text
  | some position => lastIndex c (text.take (position + 1))

/-- `position - 1`; before 0 there is `npos`. -/
def before : ℕ → Option ℕ
  | 0 => none
  | position + 1 => some position

/-- `_variables.find(key)`: the entry, or `end()`. -/
def entry (table : List (Str × Str)) (key : Str) : Option (Str × Str) :=
  (lookup key table).map fun value => (key, value)

/-- The loop of `Workspace::find`, of at most `n` rounds. -/
def findLoop (table : List (Str × Str)) (key name : Str) : ℕ → Option ℕ → Option (Option (Str × Str))
  | 0, _ => none
  | _ + 1, none => some (entry table name)
  | n + 1, some last_dot =>
      match entry table (key.take last_dot ++ dot :: name) with
      | some found => some (some found)
      | none => findLoop table key name n (rfind dot key (before last_dot))

/-- `Workspace::find`, where the loop is cut off after `n` rounds. -/
def find (table : List (Str × Str)) (n : ℕ) (key : Str) : Option (Option (Str × Str)) :=
  let last_dot := rfind dot key none
  let name := key.drop (last_dot.elim 0 (· + 1))
  findLoop table key name n last_dot

/-! ### The names that are looked up -/

/-- A name in a namespace. -/
def dotted (components : List Str) : Str := [dot].intercalate components

/-- The namespace of a key: the components before the last dot. -/
def namespaceOf (key : Str) : List Str := (key.splitOn dot).dropLast

/-- The bare name: what follows the last dot. -/
def nameOf (key : Str) : Str := (key.splitOn dot).getLast (List.splitOn_ne_nil dot key)

/-- The name in the first `n` components of a namespace, then in the first `n - 1`, and so on, and at last the bare
    name. -/
def candidatesIn (components : List Str) (name : Str) : ℕ → List Str
  | 0 => [name]
  | n + 1 => dotted (components.take (n + 1) ++ [name]) :: candidatesIn components name n

/-- The key, then the key without the last component of its namespace, and so on, and at last the bare name. -/
def candidates (key : Str) : List Str := candidatesIn (namespaceOf key) (nameOf key) (namespaceOf key).length

/-- What the search is for: it ends, with the entry of the first candidate that is defined. -/
def Finds (table : List (Str × Str)) (key : Str) : Prop :=
  ∃ n, find table n key = some ((candidates key).findSome? (entry table))

/-! ### Positions -/

/-- The position of the dot behind the first `n` components. -/
def position (components : List Str) : ℕ → Option ℕ
  | 0 => none
  | n + 1 => some (dotted (components.take (n + 1))).length

section

variable {components : List Str} {name : Str}

theorem dotted_snoc (filled : components ≠ []) (component : Str) :
    dotted (components ++ [component]) = dotted components ++ dot :: component :=
  intercalate_snoc dot filled component

theorem take_ne_nil {n : ℕ} (inside : n < components.length) : components.take (n + 1) ≠ [] := by
  apply List.ne_nil_of_length_pos
  rw [List.length_take]
  omega

/-- What precedes the dot behind the first components of a key. -/
theorem take_position (name : Str) {n : ℕ} (inside : n < components.length) :
    (dotted (components ++ [name])).take (dotted (components.take (n + 1))).length =
      dotted (components.take (n + 1)) := by
  have parts : components ++ [name] = components.take (n + 1) ++ (components.drop (n + 1) ++ [name]) := by
    rw [← List.append_assoc, List.take_append_drop]
  have split : dotted (components ++ [name]) =
      dotted (components.take (n + 1)) ++ dot :: dotted (components.drop (n + 1) ++ [name]) := by
    rw [parts]
    exact intercalate_append dot (take_ne_nil inside) (by simp)
  rw [split, List.take_left]

theorem rfind_before (c : UInt8) (text : Str) {p : ℕ} (positive : p ≠ 0) :
    rfind c text (before p) = lastIndex c (text.take p) := by
  obtain ⟨k, rfl⟩ := Nat.exists_eq_succ_of_ne_zero positive
  rfl

/-- The dot behind the last component of the namespace, if there is one. -/
theorem rfind_key (bare : dot ∉ name) :
    rfind dot (dotted (components ++ [name])) none = position components components.length := by
  cases components with
  | nil =>
      have single : dotted ([] ++ [name]) = name := List.intercalate_singleton
      rw [rfind, single, lastIndex_eq_none.mpr bare]
      rfl
  | cons first rest =>
      rw [rfind, dotted_snoc (List.cons_ne_nil _ _), lastIndex_append _ bare, List.length_cons, position,
        ← List.length_cons, List.take_length]

/-- The dot that the loop goes to: the one before; from an empty first component, the last one again. -/
def next (components : List Str) (n : ℕ) : Option ℕ :=
  if n = 0 ∧ components.head? = some [] then position components components.length else position components n

theorem rfind_next (apart : ∀ component ∈ components, dot ∉ component) (bare : dot ∉ name) {n : ℕ}
    (inside : n < components.length) :
    rfind dot (dotted (components ++ [name])) (before (dotted (components.take (n + 1))).length) =
      next components n := by
  have last : components.take (n + 1) = components.take n ++ [components[n]] := by
    rw [List.take_succ_eq_append_getElem inside]
  have piece : dot ∉ components[n] := apart _ (List.getElem_mem inside)
  cases n with
  | zero =>
      have single : dotted (components.take (0 + 1)) = components[0] := by
        rw [last]
        exact List.intercalate_singleton
      have head : components.head? = some components[0] := by
        rw [List.head?_eq_getElem?, List.getElem?_eq_getElem inside]
      by_cases empty : components[0] = []
      · rw [single, empty, next, if_pos ⟨rfl, by rw [head, empty]⟩]
        exact rfind_key bare
      · rw [rfind_before _ _ (by rw [single]; simpa using empty), take_position name inside, single, next,
          if_neg (fun both => empty (Option.some.inj (head.symm.trans both.2))), lastIndex_eq_none.mpr piece]
        rfl
  | succ m =>
      have filled : components.take (m + 1) ≠ [] := take_ne_nil (Nat.lt_of_succ_lt inside)
      have whole : dotted (components.take (m + 1 + 1)) =
          dotted (components.take (m + 1)) ++ dot :: components[m + 1] := by
        rw [last, dotted_snoc filled]
      rw [rfind_before _ _ (by rw [whole]; simp), take_position name inside, whole, lastIndex_append _ piece, next,
        if_neg (fun both => Nat.succ_ne_zero _ both.1)]
      rfl

/-- One round of the loop. -/
theorem findLoop_step (table : List (Str × Str)) (apart : ∀ component ∈ components, dot ∉ component)
    (bare : dot ∉ name) {n : ℕ} (inside : n < components.length) (f : ℕ) :
    findLoop table (dotted (components ++ [name])) name (f + 1) (position components (n + 1)) =
      match entry table (dotted (components.take (n + 1) ++ [name])) with
      | some found => some (some found)
      | none => findLoop table (dotted (components ++ [name])) name f (next components n) := by
  rw [position, findLoop, take_position name inside, dotted_snoc (take_ne_nil inside), rfind_next apart bare inside]

/-! ### Runs of the loop -/

theorem candidatesIn_ne_nil (components : List Str) (name : Str) (n : ℕ) : candidatesIn components name n ≠ [] := by
  cases n with
  | zero => exact List.cons_ne_nil _ _
  | succ n => exact List.cons_ne_nil _ _

theorem mem_candidatesIn {n m : ℕ} (below : n < m) :
    dotted (components.take (n + 1) ++ [name]) ∈ (candidatesIn components name m).dropLast := by
  induction m with
  | zero => cases below
  | succ m ih =>
      rw [candidatesIn, List.dropLast_cons_of_ne_nil (candidatesIn_ne_nil components name m)]
      rcases Nat.lt_succ_iff_lt_or_eq.mp below with earlier | rfl
      · exact List.mem_cons_of_mem _ (ih earlier)
      · exact List.mem_cons_self

/-- Where the key does not begin with a dot, the loop goes through all names. -/
theorem findLoop_ends (table : List (Str × Str)) (apart : ∀ component ∈ components, dot ∉ component)
    (bare : dot ∉ name) (plain : components.head? ≠ some []) {n : ℕ} (inside : n ≤ components.length) :
    findLoop table (dotted (components ++ [name])) name (n + 1) (position components n) =
      some ((candidatesIn components name n).findSome? (entry table)) := by
  induction n with
  | zero => simp [findLoop, position, candidatesIn]
  | succ n ih =>
      rw [findLoop_step table apart bare inside, candidatesIn, List.findSome?_cons, next,
        if_neg (fun both => plain both.2), ih (Nat.le_of_succ_le inside)]
      cases entry table (dotted (components.take (n + 1) ++ [name])) with
      | some found => rfl
      | none => rfl

/-- A name with a dot that is defined ends the loop. -/
theorem findLoop_finds (table : List (Str × Str)) (apart : ∀ component ∈ components, dot ∉ component)
    (bare : dot ∉ name) {n : ℕ} (inside : n ≤ components.length)
    (defined : ∃ candidate ∈ (candidatesIn components name n).dropLast, entry table candidate ≠ none) :
    findLoop table (dotted (components ++ [name])) name (n + 1) (position components n) =
      some ((candidatesIn components name n).findSome? (entry table)) := by
  induction n with
  | zero =>
      obtain ⟨candidate, member, _⟩ := defined
      cases member
  | succ n ih =>
      rw [findLoop_step table apart bare inside, candidatesIn, List.findSome?_cons]
      cases first : entry table (dotted (components.take (n + 1) ++ [name])) with
      | some found => rfl
      | none =>
          obtain ⟨candidate, member, there⟩ := defined
          rw [candidatesIn, List.dropLast_cons_of_ne_nil (candidatesIn_ne_nil components name n)] at member
          rcases List.mem_cons.mp member with rfl | later
          · exact absurd first there
          · have more : n ≠ 0 := by
              rintro rfl
              cases later
            rw [next, if_neg (fun both => more both.1)]
            exact ih (Nat.le_of_succ_le inside) ⟨candidate, later, there⟩

/-- Where the key begins with a dot and no name with a dot is defined, the loop does not end. -/
theorem findLoop_endless (table : List (Str × Str)) (apart : ∀ component ∈ components, dot ∉ component)
    (bare : dot ∉ name) (empty : components.head? = some [])
    (undefined : ∀ candidate ∈ (candidatesIn components name components.length).dropLast, entry table candidate = none)
    (f : ℕ) {n : ℕ} (inside : n < components.length) :
    findLoop table (dotted (components ++ [name])) name f (position components (n + 1)) = none := by
  induction f generalizing n with
  | zero => rfl
  | succ f ih =>
      rw [findLoop_step table apart bare inside, undefined _ (mem_candidatesIn inside), next]
      dsimp only
      split
      · obtain ⟨k, length⟩ := Nat.exists_eq_succ_of_ne_zero (Nat.ne_zero_of_lt inside)
        rw [length]
        exact ih (length ▸ Nat.lt_succ_self k)
      · rename_i later
        have more : n ≠ 0 := fun zero => later ⟨zero, empty⟩
        obtain ⟨k, rfl⟩ := Nat.exists_eq_succ_of_ne_zero more
        exact ih (Nat.lt_of_succ_lt inside)

end

/-! ### Keys -/

theorem dotted_components (key : Str) : dotted (namespaceOf key ++ [nameOf key]) = key := by
  rw [namespaceOf, nameOf, List.dropLast_append_getLast]
  exact List.intercalate_splitOn dot

theorem namespaceOf_apart (key : Str) : ∀ component ∈ namespaceOf key, dot ∉ component :=
  fun _ member => Separators.not_mem_of_mem_splitOn (List.dropLast_subset _ member)

theorem nameOf_bare (key : Str) : dot ∉ nameOf key :=
  Separators.not_mem_of_mem_splitOn (List.getLast_mem (List.splitOn_ne_nil dot key))

/-- A key begins with a dot where the first component of its namespace is empty. -/
theorem head_eq_dot_iff (key : Str) : key.head? = some dot ↔ (namespaceOf key).head? = some [] := by
  have whole := dotted_components key
  have bare := nameOf_bare key
  have apart := namespaceOf_apart key
  generalize namespaceOf key = components at whole apart
  generalize nameOf key = name at whole bare
  subst whole
  cases components with
  | nil =>
      have single : dotted ([] ++ [name]) = name := List.intercalate_singleton
      rw [single]
      constructor
      · intro head
        exact absurd (List.mem_of_head? head) bare
      · intro head
        cases head
  | cons first rest =>
      have split : dotted ([first] ++ (rest ++ [name])) = dotted [first] ++ dot :: dotted (rest ++ [name]) :=
        intercalate_append dot (List.cons_ne_nil first []) (by simp)
      have single : dotted [first] = first := List.intercalate_singleton
      rw [List.cons_append, ← List.singleton_append, split, single]
      cases first with
      | nil => simp
      | cons c others =>
          have other : c ≠ dot := fun same => apart (c :: others) List.mem_cons_self (same ▸ List.mem_cons_self)
          simp [other]

/-- The search begins at the last dot of the key. -/
theorem find_eq (table : List (Str × Str)) (n : ℕ) (key : Str) :
    find table n key = findLoop table (dotted (namespaceOf key ++ [nameOf key])) (nameOf key) n
      (position (namespaceOf key) (namespaceOf key).length) := by
  have start : rfind dot (dotted (namespaceOf key ++ [nameOf key])) none =
      position (namespaceOf key) (namespaceOf key).length := rfind_key (nameOf_bare key)
  rw [dotted_components] at start ⊢
  have named : key.drop ((position (namespaceOf key) (namespaceOf key).length).elim 0 (· + 1)) = nameOf key := by
    have whole := dotted_components key
    generalize namespaceOf key = components at whole
    generalize nameOf key = name at whole
    cases components with
    | nil => exact whole.symm.trans List.intercalate_singleton
    | cons first rest =>
        rw [dotted_snoc (List.cons_ne_nil _ _)] at whole
        rw [List.length_cons, position, ← List.length_cons, List.take_length, ← whole]
        simp
  rw [find, start, named]

/-- `find` ends with the first candidate that is defined exactly if the key does not begin with a dot, or one of the
    candidates other than the bare name is defined. -/
theorem find_terminates (table : List (Str × Str)) (key : Str) :
    Finds table key ↔
      key.head? ≠ some dot ∨ ∃ candidate ∈ (candidates key).dropLast, (lookup candidate table).isSome := by
  have apart := namespaceOf_apart key
  have bare := nameOf_bare key
  have defined_iff (candidate : Str) : entry table candidate ≠ none ↔ (lookup candidate table).isSome := by
    rw [Option.isSome_iff_ne_none, entry, ne_eq, Option.map_eq_none_iff]
  constructor
  · intro ⟨n, result⟩
    by_contra neither
    push Not at neither
    obtain ⟨begins, undefined⟩ := neither
    have empty := (head_eq_dot_iff key).mp begins
    have none_defined : ∀ candidate ∈ (candidates key).dropLast, entry table candidate = none := by
      intro candidate member
      by_contra there
      exact undefined candidate member ((defined_iff candidate).mp there)
    have filled : (namespaceOf key).length ≠ 0 := by
      intro zero
      rw [List.eq_nil_of_length_eq_zero zero] at empty
      cases empty
    obtain ⟨k, length⟩ := Nat.exists_eq_succ_of_ne_zero filled
    rw [find_eq, length] at result
    rw [findLoop_endless table apart bare empty none_defined n (length ▸ Nat.lt_succ_self k)] at result
    cases result
  · rintro (plain | ⟨candidate, member, there⟩)
    · have other : (namespaceOf key).head? ≠ some [] := fun empty => plain ((head_eq_dot_iff key).mpr empty)
      refine ⟨(namespaceOf key).length + 1, ?_⟩
      rw [find_eq]
      exact findLoop_ends table apart bare other (Nat.le_refl _)
    · refine ⟨(namespaceOf key).length + 1, ?_⟩
      rw [find_eq]
      exact findLoop_finds table apart bare (Nat.le_refl _)
        ⟨candidate, member, (defined_iff candidate).mpr there⟩

/-- A key that begins with a dot, in a workspace without variables: the search does not end. -/
theorem find_endless : ¬ ∀ (table : List (Str × Str)) (key : Str), Finds table key := by
  intro finds
  obtain ⟨n, result⟩ := finds [] (str ".x")
  have endless (n : ℕ) : find [] n (str ".x") = none := by
    induction n with
    | zero => rfl
    | succ n ih => exact ih
  rw [endless n] at result
  cases result

end Experimaestro.Commands
