/-
Module: Experimaestro.Configuration.Printing
Layer: Configuration
Purpose: `toJson`, which writes a value as JSON, and what it depends on: the scalars, the types and tasks of
  the maps and their keys, neither flags nor jobs nor the component types of arrays.
Imports: Experimaestro.Configuration.Irrelevance (order of keys)
Trusted boundary: human-reviewed model of Scalar::toJson, ScalarValue::toJson, ArrayValue::toJson and
  MapValue::toJson
Main exports: Scalar.toJson, objectMembers, Value.toJson, toJson_withFlags, keyLess_trans, ordered_insert
Open obligations: none
-/
import Mathlib.Tactic.Common
import Experimaestro.Configuration.Irrelevance

namespace Experimaestro.Configuration

/-- A mapped result is a result that was mapped. -/
theorem except_map_eq_ok {ε α β : Type} {f : α → β} {x : Except ε α} {b : β} :
    x.map f = .ok b ↔ ∃ a, x = .ok a ∧ f a = b := by
  cases x with
  | error e => simp [Except.map]
  | ok a => simp [Except.map]

/-- A result of two steps. -/
theorem bind_eq_ok {ε α β : Type} {x : Except ε α} {f : α → Except ε β} {b : β} :
    (do f (← x)) = .ok b ↔ ∃ a, x = .ok a ∧ f a = .ok b := by
  cases x with
  | error e => simp [bind, Except.bind]
  | ok a => simp [bind, Except.bind]

/-! ### Writing -/

/-- `Scalar::toJson`. -/
def Scalar.toJson : Scalar → Except Error Json
  | .none => .ok .null
  | .string text => .ok (.string text)
  | .integer n => .ok (.integer n)
  | .real bits => .ok (.float bits)
  | .boolean b => .ok (.boolean b)
  | .path text => .ok (.object [(str "$type", .string (str "path")), (str "$value", .string text)])
  | .unset => .error (.runtimeError (str "to json: unset has no type"))

section

variable {Ty Job : Type} (types : Types Ty Job)

namespace Value

/-- The members that `MapValue::toJson` writes, with those for the children. The type of a map is never
    null, so that the first branch of the source, which returns null, is not taken. -/
def objectMembers (type : TypeRef Ty) (task : Option Str) (members : List (Str × Json)) : List (Str × Json) :=
  let typed := insert (str "$type") (.string (types.nameOf type)) members
  match task with
  | some identifier => insert (str "$task") (.string identifier) typed
  | none => typed

mutual

/-- `toJson`. -/
def toJson : Value Ty Job → Except Error Json
  | .scalar _ s => s.toJson
  | .array _ _ elements => (elementsJson elements).map .array
  | .map _ type task _ children =>
      (childrenJson children).map fun members => .object (objectMembers types type task members)

/-- The loop over the elements of an array. -/
def elementsJson : List (Value Ty Job) → Except Error (List Json)
  | [] => .ok []
  | element :: rest =>
      match toJson element with
      | .error e => .error e
      | .ok j => (elementsJson rest).map (j :: ·)

/-- The loop over `_map`, in the order of the keys. -/
def childrenJson : List (Str × Value Ty Job) → Except Error (List (Str × Json))
  | [] => .ok []
  | (key, child) :: rest =>
      match toJson child with
      | .error e => .error e
      | .ok j => (childrenJson rest).map ((key, j) :: ·)

end

theorem toJson_withFlags (f : Flags → Flags) (v : Value Ty Job) :
    (v.withFlags f).toJson types = v.toJson types := by
  cases v <;> rfl

variable {types}

theorem elementsJson_cons {element : Value Ty Job} {rest : List (Value Ty Job)} {js : List Json} :
    elementsJson types (element :: rest) = .ok js ↔
      ∃ j others, element.toJson types = .ok j ∧ elementsJson types rest = .ok others ∧ js = j :: others := by
  rw [elementsJson]
  cases element.toJson types with
  | error e => simp
  | ok j =>
      cases elementsJson types rest with
      | error e => simp [Except.map]
      | ok others => simp [Except.map, eq_comm]

theorem childrenJson_cons {key : Str} {child : Value Ty Job} {rest : List (Str × Value Ty Job)}
    {members : List (Str × Json)} :
    childrenJson types ((key, child) :: rest) = .ok members ↔
      ∃ j others, child.toJson types = .ok j ∧ childrenJson types rest = .ok others ∧
        members = (key, j) :: others := by
  rw [childrenJson]
  cases child.toJson types with
  | error e => simp
  | ok j =>
      cases childrenJson types rest with
      | error e => simp [Except.map]
      | ok others => simp [Except.map, eq_comm]

/-- The members for the children of a map have the keys of the children. -/
theorem childrenJson_keys {children : List (Str × Value Ty Job)} {members : List (Str × Json)}
    (written : childrenJson types children = .ok members) : members.map Prod.fst = children.map Prod.fst := by
  induction children generalizing members with
  | nil =>
      cases written
      rfl
  | cons entry rest ih =>
      obtain ⟨j, others, _, left, rfl⟩ := childrenJson_cons.mp written
      simp [ih left]

end Value

end

/-! ### The order of keys -/

theorem keyLess_trans : ∀ {a b c : Str}, keyLess a b = true → keyLess b c = true → keyLess a c = true
  | _, _, [], _, less => by
      rw [keyLess] at less
      cases less
  | [], _, _ :: _, _, _ => rfl
  | _ :: _, [], _ :: _, less, _ => by
      rw [keyLess] at less
      cases less
  | a :: as, b :: bs, c :: cs, first, second => by
      simp only [keyLess, Bool.or_eq_true, Bool.and_eq_true, decide_eq_true_iff, beq_iff_eq] at first second ⊢
      rcases first with less | ⟨rfl, less⟩
      · rcases second with less' | ⟨rfl, _⟩
        · exact Or.inl (UInt8.lt_trans less less')
        · exact Or.inl less
      · rcases second with less' | ⟨rfl, less'⟩
        · exact Or.inl less'
        · exact Or.inr ⟨rfl, keyLess_trans less less'⟩

theorem keyLess_of_not : ∀ {a b : Str}, a ≠ b → keyLess a b = false → keyLess b a = true
  | [], [], ne, _ => absurd rfl ne
  | [], _ :: _, _, less => by cases less
  | _ :: _, [], _, _ => rfl
  | a :: as, b :: bs, ne, less => by
      simp only [keyLess, Bool.or_eq_false_iff, decide_eq_false_iff_not, Bool.and_eq_false_iff,
        beq_eq_false_iff_ne] at less
      simp only [keyLess, Bool.or_eq_true, Bool.and_eq_true, decide_eq_true_iff, beq_iff_eq]
      rcases UInt8.lt_or_eq_of_le (UInt8.not_lt.mp less.1) with below | same
      · exact Or.inl below
      · have tails : as ≠ bs := fun equal => ne (by rw [same, equal])
        exact Or.inr ⟨same, keyLess_of_not tails (less.2.resolve_left fun heads => heads same.symm)⟩

/-- Storing under a key keeps the order. -/
theorem ordered_insert {α : Type} {key : Str} (value : α) {entries : List (Str × α)}
    (ordered : Ordered entries) : Ordered (insert key value entries) := by
  induction entries with
  | nil => exact List.pairwise_singleton _ _
  | cons entry rest ih =>
      obtain ⟨k, v⟩ := entry
      obtain ⟨first, others⟩ := List.pairwise_cons.mp ordered
      rw [insert]
      split
      · next same => exact List.pairwise_cons.mpr ⟨same ▸ first, others⟩
      · next other =>
        split
        · next less =>
          refine List.pairwise_cons.mpr ⟨fun entry member => ?_, ordered⟩
          rcases List.mem_cons.mp member with rfl | later
          · exact less
          · exact keyLess_trans less (first entry later)
        · next not_less =>
          refine List.pairwise_cons.mpr ⟨fun entry member => ?_, ih others⟩
          rcases mem_insert member with rfl | later
          · exact keyLess_of_not (Ne.symm other) (by simpa using not_less)
          · exact first entry later

end Experimaestro.Configuration
