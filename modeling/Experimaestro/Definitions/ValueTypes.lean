/-
Module: Experimaestro.Definitions.ValueTypes
Layer: Definitions
Purpose: The values of a register, and `Value::create` on a register that is being loaded. Values refer to types
  by their names. The types that reading registers on the way become objects of the register.
Imports: Experimaestro.Definitions.Loading, Experimaestro.Configuration.Printing (order of keys),
  Experimaestro.Configuration.Places (entries of tables)
Trusted boundary: human-reviewed; where parents form a cycle, Type::lca does not return in the source, and the
  cycle is cut here
Main exports: TypeName, Stored, store, valueTypes, valueRegister, createValue
Open obligations: none
-/
import Experimaestro.Configuration.Places
import Experimaestro.Configuration.Printing
import Experimaestro.Definitions.Loading

namespace Experimaestro.Definitions

open Experimaestro.Configuration (Conversions Json Ordered ScalarType Str TypeRef Types Value create insert insert_last
  keyLess_irrefl lookup lookup_insert lookup_of_mem mem_of_lookup ordered_insert str)

/-! ### Types by their names -/

/-- A type as a value refers to it: the one that is registered under a name, or a placeholder that reading has
    just made for a name. -/
inductive TypeName where
  | known (name : Str)
  | placeholder (name : Str)
deriving DecidableEq

/-- `Type::name`. -/
def TypeName.name : TypeName → Str
  | known name => name
  | placeholder name => name

/-- The values of a register. -/
abbrev Stored := Value TypeName Unit

/-- The entries of a table in the order of their keys. -/
def store {α : Type} (entries : List (Str × α)) : List (Str × α) :=
  entries.foldl (fun sorted entry => insert entry.1 entry.2 sorted) []

theorem ordered_store {α : Type} (entries : List (Str × α)) : Ordered (store entries) := by
  have kept (sorted : List (Str × α)) (ordered : Ordered sorted) :
      Ordered (entries.foldl (fun sorted entry => insert entry.1 entry.2 sorted) sorted) := by
    induction entries generalizing sorted with
    | nil => exact ordered
    | cons entry rest ih => exact ih _ (ordered_insert entry.2 ordered)
  exact kept [] List.Pairwise.nil

theorem store_of_ordered {α : Type} {entries : List (Str × α)} (ordered : Ordered entries) :
    store entries = entries := by
  have appended (sorted : List (Str × α)) (ordered : Ordered (sorted ++ entries)) :
      entries.foldl (fun sorted entry => insert entry.1 entry.2 sorted) sorted = sorted ++ entries := by
    clear * - ordered
    induction entries generalizing sorted with
    | nil => exact (List.append_nil sorted).symm
    | cons entry rest ih =>
        have last : insert entry.1 entry.2 sorted = sorted ++ [entry] :=
          insert_last entry.2 fun e inside =>
            (List.pairwise_append.mp ordered).2.2 e inside entry List.mem_cons_self
        rw [← List.singleton_append, ← List.append_assoc] at ordered
        rw [List.foldl_cons, last, ih _ ordered, List.append_assoc, List.singleton_append]
  exact appended [] ordered

/-- Entries with distinct keys are all found in the order of their keys. -/
theorem lookup_store {α : Type} {entries : List (Str × α)} (distinct : (entries.map Prod.fst).Nodup) (key : Str) :
    lookup key (store entries) = lookup key entries := by
  have found (sorted : List (Str × α)) :
      lookup key (entries.foldl (fun sorted entry => insert entry.1 entry.2 sorted) sorted) =
        (lookup key entries).or (lookup key sorted) := by
    induction entries generalizing sorted with
    | nil => rfl
    | cons entry rest ih =>
        obtain ⟨k, v⟩ := entry
        obtain ⟨first, others⟩ := List.nodup_cons.mp distinct
        rw [List.foldl_cons, ih others, lookup, lookup_insert]
        by_cases same : k = key
        · subst same
          have missing : lookup k rest = none := by
            cases there : lookup k rest with
            | none => rfl
            | some w => exact absurd (List.mem_map_of_mem (mem_of_lookup there)) first
          rw [if_pos rfl, if_pos rfl, missing, Option.none_or, Option.some_or]
        · rw [if_neg same, if_neg same]
  rw [store, found [], lookup, Option.or_none]

theorem lookup_append {α : Type} (key : Str) (entries others : List (Str × α)) :
    lookup key (entries ++ others) = (lookup key entries).or (lookup key others) := by
  induction entries with
  | nil => rfl
  | cons entry rest ih =>
      obtain ⟨k, v⟩ := entry
      rw [List.cons_append, lookup, lookup]
      split
      · rfl
      · exact ih

theorem nodup_of_ordered {α : Type} {entries : List (Str × α)} (ordered : Ordered entries) :
    (entries.map Prod.fst).Nodup := by
  apply List.pairwise_map.mpr
  apply ordered.imp
  intro a b less same
  rw [same, keyLess_irrefl] at less
  cases less

theorem mem_store {α : Type} {entries : List (Str × α)} (distinct : (entries.map Prod.fst).Nodup) {entry : Str × α} :
    entry ∈ store entries ↔ entry ∈ entries := by
  have found := lookup_store distinct entry.1
  constructor
  · intro inside
    rw [lookup_of_mem (nodup_of_ordered (ordered_store entries)) inside] at found
    exact mem_of_lookup found.symm
  · intro inside
    rw [lookup_of_mem distinct inside] at found
    exact mem_of_lookup found

section

variable (s : Register Stored)

/-- The name of the parent of a type. -/
def parentName (name : Str) : Option Str :=
  if name ∈ predefinedNames then (if name = str "any" then none else some (str "any"))
  else (lookup name s.types).bind fun a => (s.objects a).parent.map fun p => (s.objects p).name

/-- The number of ancestors of a type, if it is less than `n`. -/
def height : ℕ → Str → Option ℕ
  | 0, _ => none
  | n + 1, name =>
      match parentName s name with
      | none => some 0
      | some parent => (height n parent).map (· + 1)

theorem height_succ {n k : ℕ} {name : Str} (ends : height s n name = some k) : height s (n + 1) name = some k := by
  induction n generalizing name k with
  | zero => cases ends
  | succ n ih =>
      rw [height] at ends ⊢
      cases up : parentName s name with
      | none => rwa [up] at ends
      | some parent =>
          rw [up] at ends
          obtain ⟨j, above, rfl⟩ := Option.map_eq_some_iff.mp ends
          dsimp only
          rw [ih above]
          rfl

/-- A pointer to a type, by the name of its element. -/
def typeRef : TypePtr → TypeRef TypeName
  | .object address => .base (.known (s.objects address).name)
  | .array component => .array (typeRef component)
  | .arrayBelow component _ => .array (typeRef component)

/-- An argument, as `Value::create` finds it. -/
def valueArgument (key : Str) (a : Argument Stored) : Configuration.Argument TypeName Unit where
  name := key
  type := typeRef s a.type
  required := a.required
  isConstant := a.isConstant
  value := a.value
  generator := a.generator

/-- The types of a register. -/
def valueTypes : Types TypeName Unit where
  name := TypeName.name
  parent
    | .known name => if (height s (s.size + 2) name).isSome then (parentName s name).map .known else none
    | .placeholder _ => none
  arguments
    | .known name =>
        match lookup name s.types with
        | some a => (store (s.objects a).arguments).map fun entry => valueArgument s entry.1 entry.2
        | none => []
    | .placeholder _ => []
  canIgnore
    | .known name => name = str "path" || ((lookup name s.types).map fun a => (s.objects a).canIgnore).getD false
    | .placeholder _ => false
  any := .known (str "any")
  boolean := .known (str "boolean")
  integer := .known (str "integer")
  real := .known (str "real")
  string := .known (str "string")
  path := .known (str "path")
  level
    | .known name => (height s (s.size + 2) name).getD 0
    | .placeholder _ => 0
  level_lt t p up := by
    cases t with
    | placeholder name => cases up
    | known name =>
        dsimp only at up ⊢
        split at up
        · rename_i ends
          obtain ⟨k, tall⟩ := Option.isSome_iff_exists.mp ends
          obtain ⟨parent, above, rfl⟩ := Option.map_eq_some_iff.mp up
          have below := tall
          rw [height, above] at below
          obtain ⟨j, shorter, rfl⟩ := Option.map_eq_some_iff.mp below
          dsimp only
          rw [tall, height_succ s shorter]
          exact Nat.lt_succ_self j
        · cases up
  nodup t := by
    cases t with
    | placeholder name => exact List.nodup_nil
    | known name =>
        dsimp only
        split
        · rename_i a _
          rw [List.map_map]
          exact nodup_of_ordered (ordered_store (s.objects a).arguments)
        · exact List.nodup_nil
  path_canIgnore := rfl

/-- The value types of the simple types. -/
def valueTypeOf : TypeName → Option ScalarType
  | .known name =>
      if name = str "boolean" then some .boolean
      else if name = str "integer" then some .integer
      else if name = str "real" then some .real
      else if name = str "string" then some .string
      else if name = str "path" then some .path
      else none
  | .placeholder _ => none

/-- The register, as `Value::create` sees it. -/
def valueRegister (conversions : Conversions) : Configuration.Register TypeName Unit where
  types := valueTypes s
  valueType := valueTypeOf
  placeholder := .placeholder
  task name := (lookup name s.tasks).map Task.identifier
  dummy _ := ()
  conversions := conversions
  valueType_path := rfl
  name_string := rfl
  name_path := rfl
  name_real := rfl
  chain_string := rfl
  name_any := rfl
  name_placeholder _ := rfl
  parent_placeholder _ := rfl
  arguments_placeholder _ := rfl
  canIgnore_placeholder _ := rfl
  valueType_placeholder _ := rfl

/-- The table, as `Value::create` sees it. -/
def valueTable : Configuration.Table TypeName := s.types.map fun entry => (entry.1, .known entry.1)

/-- The placeholders that have been registered, the latest first. -/
def addPlaceholders (names : List Str) : Register Stored :=
  names.foldr (fun name s => s.addType name true) s

end

/-- `Value::create` on a register. -/
def createValue (conversions : Conversions) : ValueReader Stored := fun s j =>
  match create (valueRegister s conversions) j (valueTable s) with
  | (.error e, _) => .error (.thrown e)
  | (.ok v, later) =>
      .ok (v, addPlaceholders s ((later.take (later.length - (valueTable s).length)).map Prod.fst))

end Experimaestro.Definitions
