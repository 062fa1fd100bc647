/-
Module: Experimaestro.Configuration.Placeholders
Layer: Configuration
Purpose: `Value::create` on the tables of types that come up while configurations are read. Names that the
  table does not have are registered as placeholders, which matters to what is read later only where such
  a name is mentioned both by itself and as the component of an array.
Imports: Experimaestro.Configuration.Creation
Trusted boundary: none
Main exports: Json.typeNames, Unambiguous, Extends, create_stable, create_path
Open obligations: none
-/
import Experimaestro.Configuration.Creation

namespace Experimaestro.Configuration

open Value

/-! ### Type names -/

/-- The name without any `[]`, of which at most `n` are taken off. -/
def elementNameIn : ℕ → Str → Str
  | 0, name => name
  | n + 1, name =>
      match componentName name with
      | some component => elementNameIn n component
      | none => name

/-- The name of the elements of an array type, or of any other type. -/
def elementName (name : Str) : Str := elementNameIn name.length name

namespace Json

mutual

/-- The type names that a configuration mentions. -/
def typeNames : Json → List Str
  | .object members =>
      (match lookup (str "$type") members with
        | some (.string name) => [name]
        | _ => []) ++ memberTypeNames members
  | .array elements => elementTypeNames elements
  | _ => []

def memberTypeNames : List (Str × Json) → List Str
  | [] => []
  | (_, j) :: rest => typeNames j ++ memberTypeNames rest

def elementTypeNames : List Json → List Str
  | [] => []
  | j :: rest => typeNames j ++ elementTypeNames rest

end

end Json

section

variable {Ty Job : Type} (register : Register Ty Job)

/-- No type that the table does not have is mentioned both by itself and as the component of an array. -/
def Unambiguous (table : Table Ty) (names : List Str) : Prop :=
  ∀ name ∈ names, elementName name ≠ name → elementName name ∈ names →
    lookup (elementName name) table ≠ none

/-- A later table: some of the names have been registered as placeholders. -/
def Extends (names : List Str) (table later : Table Ty) : Prop :=
  ∀ name, componentName name = none →
    lookup name later = lookup name table ∨
      (lookup name table = none ∧ name ∈ names ∧ lookup name later = some (register.placeholder name))

theorem Extends.refl (names : List Str) (table : Table Ty) : Extends register names table table :=
  fun _ _ => Or.inl rfl

theorem length_componentName {name component : Str} (found : componentName name = some component) :
    component.length < name.length := by
  unfold componentName at found
  split at found
  · rename_i long
    cases found
    rw [List.length_take]
    omega
  · cases found

theorem componentName_elementNameIn :
    ∀ (n : ℕ) (name : Str), name.length ≤ n → componentName (elementNameIn n name) = none
  | 0, name, short => by
      have empty : name = [] := List.eq_nil_of_length_eq_zero (Nat.le_zero.mp short)
      subst empty
      rfl
  | n + 1, name, short => by
      rw [elementNameIn]
      cases found : componentName name with
      | none => exact found
      | some component =>
          apply componentName_elementNameIn n component
          have shorter := length_componentName found
          omega

theorem getTypeIn_congr {table later : Table Ty} :
    ∀ (n : ℕ) (name : Str), lookup (elementNameIn n name) later = lookup (elementNameIn n name) table →
      getTypeIn later n name = getTypeIn table n name
  | 0, name, same => by
      rw [elementNameIn] at same
      rw [getTypeIn, getTypeIn, same]
  | n + 1, name, same => by
      rw [elementNameIn] at same
      rw [getTypeIn, getTypeIn]
      cases found : componentName name with
      | none =>
          rw [found] at same
          dsimp only at same ⊢
          rw [same]
      | some component =>
          rw [found] at same
          dsimp only at same ⊢
          rw [getTypeIn_congr n component same]

theorem getTypeIn_eq_none {table : Table Ty} :
    ∀ (n : ℕ) (name : Str), getTypeIn table n name = none ↔ lookup (elementNameIn n name) table = none
  | 0, name => by rw [getTypeIn, elementNameIn, Option.map_eq_none_iff]
  | n + 1, name => by
      rw [getTypeIn, elementNameIn]
      cases componentName name with
      | none => rw [Option.map_eq_none_iff]
      | some component =>
          dsimp only
          rw [Option.map_eq_none_iff]
          exact getTypeIn_eq_none n component

theorem getTypeIn_of_simple {table : Table Ty} {name : Str} (simple : componentName name = none) (n : ℕ) :
    getTypeIn table n name = (lookup name table).map .base := by
  cases n with
  | zero => rw [getTypeIn]
  | succ n => rw [getTypeIn, simple]

theorem getType_known {table later : Table Ty} {names : List Str} {name : Str} {t : Ty}
    (known : lookup (elementName name) table = some t) (extended : Extends register names table later) :
    getType later name = getType table name := by
  apply getTypeIn_congr
  have simple := componentName_elementNameIn name.length name (Nat.le_refl _)
  rcases extended _ simple with same | ⟨unknown, _, _⟩
  · exact same
  · rw [elementName] at known
    rw [known] at unknown
    cases unknown

theorem getType_unknown {table : Table Ty} {name : Str} (unknown : lookup (elementName name) table = none) :
    getType table name = none :=
  (getTypeIn_eq_none name.length name).mpr unknown

/-- Registering a name that has no type yet. -/
theorem Extends.cons {names : List Str} {table later : Table Ty} {name : Str}
    (unknown : lookup (elementName name) table = none) (mentioned : name ∈ names)
    (extended : Extends register names table later) :
    Extends register names table ((name, register.placeholder name) :: later) := by
  intro key simple
  rw [lookup]
  by_cases here : name = key
  · subst here
    rw [if_pos rfl]
    -- A name that is no array name is the name of its elements.
    have own : elementName name = name := by
      unfold elementName
      cases name.length with
      | zero => rw [elementNameIn]
      | succ n => rw [elementNameIn, simple]
    rw [own] at unknown
    exact Or.inr ⟨unknown, mentioned, rfl⟩
  · rw [if_neg here]
    exact extended key simple

/-- A name is resolved to the same type before and after other names are registered. -/
theorem resolve_stable {names : List Str} {table later : Table Ty} {name : Str}
    (unambiguous : Unambiguous table names) (mentioned : name ∈ names)
    (extended : Extends register names table later) :
    (resolve register later name).1 = (resolve register table name).1 ∧
      Extends register names table (resolve register later name).2 := by
  have simple := componentName_elementNameIn name.length name (Nat.le_refl _)
  cases known : lookup (elementName name) table with
  | some t =>
      have same := getType_known register known extended
      have found : getType table name ≠ none := by
        intro missing
        have unknown := (getTypeIn_eq_none name.length name).mp missing
        rw [elementName] at known
        rw [known] at unknown
        cases unknown
      unfold resolve
      rw [same]
      cases type : getType table name with
      | none => exact absurd type found
      | some type => exact ⟨rfl, extended⟩
  | none =>
      have before : (resolve register table name).1 = .base (register.placeholder name) := by
        unfold resolve
        rw [getType_unknown known]
      rw [before]
      cases later' : lookup (elementName name) later with
      | none =>
          unfold resolve
          rw [getType_unknown later']
          exact ⟨rfl, Extends.cons register known mentioned extended⟩
      | some t =>
          rcases extended _ simple with same | ⟨_, element, placeholder⟩
          · rw [elementName] at later' known
            rw [later', known] at same
            cases same
          · -- Only the name itself can have been registered in the meantime.
            have own : elementName name = name := by
              by_contra other
              exact unambiguous name mentioned other element known
            have found : getType later name = some (.base (register.placeholder name)) := by
              rw [elementName] at own
              rw [own] at simple placeholder
              rw [getType, getTypeIn_of_simple simple, placeholder]
              rfl
            unfold resolve
            rw [found]
            exact ⟨rfl, extended⟩

theorem objectType_stable {names : List Str} {table later later' : Table Ty} {members : List (Str × Json)}
    (unambiguous : Unambiguous table names) (mentioned : Json.typeNames (.object members) ⊆ names)
    (extended : Extends register names table later) (extended' : Extends register names table later') :
    (objectType register members later).1 = (objectType register members later').1 ∧
      Extends register names table (objectType register members later).2 := by
  rw [Json.typeNames] at mentioned
  unfold objectType
  cases found : lookup (str "$type") members with
  | none => exact ⟨rfl, extended⟩
  | some j =>
      rw [found] at mentioned
      cases j with
      | string name =>
          have member : name ∈ names := mentioned (List.mem_append_left _ (List.mem_singleton.mpr rfl))
          have first := resolve_stable register unambiguous member extended
          have second := resolve_stable register unambiguous member extended'
          dsimp only
          exact ⟨by rw [first.1, second.1], first.2⟩
      | _ => exact ⟨rfl, extended⟩

mutual

/-- A configuration builds the same value before and after other names are registered. -/
theorem create_stable {names : List Str} {table : Table Ty} (unambiguous : Unambiguous table names) :
    ∀ (j : Json) (later later' : Table Ty), j.typeNames ⊆ names → Extends register names table later →
      Extends register names table later' →
        (create register j later).1 = (create register j later').1 ∧
          Extends register names table (create register j later).2
  | .object members, later, later', mentioned, extended, extended' => by
      obtain ⟨types, typed⟩ := objectType_stable register unambiguous mentioned extended extended'
      obtain ⟨_, typed'⟩ := objectType_stable register unambiguous mentioned extended' extended
      rw [Json.typeNames] at mentioned
      rw [create, create]
      cases first : objectType register members later with
      | mk outcome later =>
          cases second : objectType register members later' with
          | mk outcome' later' =>
              rw [first] at types typed
              rw [second] at types typed'
              dsimp only at types typed typed' ⊢
              subst types
              cases outcome with
              | error e => exact ⟨rfl, typed⟩
              | ok type =>
                  exact createMembers_stable unambiguous type members later later' _
                    (List.append_subset.mp mentioned).2 typed typed'
  | .array elements, later, later', mentioned, extended, extended' => by
      rw [Json.typeNames] at mentioned
      obtain ⟨same, built⟩ := createElements_stable unambiguous elements later later'
        (.base register.types.any, []) mentioned extended extended'
      rw [create, create]
      cases first : createElements register elements later (.base register.types.any, []) with
      | mk outcome later =>
          cases second : createElements register elements later' (.base register.types.any, []) with
          | mk outcome' later' =>
              rw [first] at same built
              rw [second] at same
              dsimp only at same built ⊢
              subst same
              cases outcome with
              | error e => exact ⟨rfl, built⟩
              | ok array => exact ⟨rfl, built⟩
  | .null, _, _, _, extended, _ => by
      rw [create, create]
      exact ⟨rfl, extended⟩
  | .boolean _, _, _, _, extended, _ => by
      rw [create, create]
      exact ⟨rfl, extended⟩
  | .integer _, _, _, _, extended, _ => by
      rw [create, create]
      exact ⟨rfl, extended⟩
  | .float _, _, _, _, extended, _ => by
      rw [create, create]
      exact ⟨rfl, extended⟩
  | .string _, _, _, _, extended, _ => by
      rw [create, create]
      exact ⟨rfl, extended⟩

theorem createMembers_stable {names : List Str} {table : Table Ty} (unambiguous : Unambiguous table names)
    (type : TypeRef Ty) :
    ∀ (members : List (Str × Json)) (later later' : Table Ty) (p : Value Ty Job),
      Json.memberTypeNames members ⊆ names → Extends register names table later →
        Extends register names table later' →
          (createMembers register type members later p).1 = (createMembers register type members later' p).1 ∧
            Extends register names table (createMembers register type members later p).2
  | [], _, _, _, _, extended, _ => by
      rw [createMembers, createMembers]
      exact ⟨rfl, extended⟩
  | (key, j) :: rest, later, later', p, mentioned, extended, extended' => by
      rw [Json.memberTypeNames] at mentioned
      obtain ⟨here, others⟩ := List.append_subset.mp mentioned
      rw [createMembers, createMembers]
      split
      · cases keyword register type key j p with
        | error e => exact ⟨rfl, extended⟩
        | ok p => exact createMembers_stable unambiguous type rest later later' p others extended extended'
      · split
        · exact ⟨rfl, extended⟩
        · obtain ⟨same, built⟩ := create_stable unambiguous j later later' here extended extended'
          obtain ⟨_, built'⟩ := create_stable unambiguous j later' later here extended' extended
          cases first : create register j later with
          | mk outcome later =>
              cases second : create register j later' with
              | mk outcome' later' =>
                  rw [first] at same built
                  rw [second] at same built'
                  dsimp only at same built built' ⊢
                  subst same
                  cases outcome with
                  | error e => exact ⟨rfl, built⟩
                  | ok v =>
                      dsimp only
                      cases stored : p.set register.types key v with
                      | mk p failure =>
                          cases failure with
                          | some e => exact ⟨rfl, built⟩
                          | none =>
                              exact createMembers_stable unambiguous type rest later later' p others
                                built built'

theorem createElements_stable {names : List Str} {table : Table Ty}
    (unambiguous : Unambiguous table names) :
    ∀ (elements : List Json) (later later' : Table Ty) (start : TypeRef Ty × List (Value Ty Job)),
      Json.elementTypeNames elements ⊆ names → Extends register names table later →
        Extends register names table later' →
          (createElements register elements later start).1 =
              (createElements register elements later' start).1 ∧
            Extends register names table (createElements register elements later start).2
  | [], _, _, _, _, extended, _ => by
      rw [createElements, createElements]
      exact ⟨rfl, extended⟩
  | j :: rest, later, later', start, mentioned, extended, extended' => by
      rw [Json.elementTypeNames] at mentioned
      obtain ⟨here, others⟩ := List.append_subset.mp mentioned
      obtain ⟨same, built⟩ := create_stable unambiguous j later later' here extended extended'
      obtain ⟨_, built'⟩ := create_stable unambiguous j later' later here extended' extended
      rw [createElements, createElements]
      cases first : create register j later with
      | mk outcome later =>
          cases second : create register j later' with
          | mk outcome' later' =>
              rw [first] at same built
              rw [second] at same built'
              dsimp only at same built built' ⊢
              subst same
              cases outcome with
              | error e => exact ⟨rfl, built⟩
              | ok v =>
                  exact createElements_stable unambiguous rest later later' _ others built built'

end

/-- Reading a configuration registers some of the names it mentions. -/
theorem create_extends {names : List Str} {table later : Table Ty} {j : Json}
    (unambiguous : Unambiguous table names) (mentioned : j.typeNames ⊆ names)
    (extended : Extends register names table later) :
    Extends register names table (create register j later).2 :=
  (create_stable register unambiguous j later later mentioned extended extended).2

/-- Two readings of a configuration give the same value. -/
theorem create_agree {names : List Str} {table later later' : Table Ty} {j : Json} {v v' : Value Ty Job}
    (unambiguous : Unambiguous table names) (mentioned : j.typeNames ⊆ names)
    (extended : Extends register names table later) (extended' : Extends register names table later')
    (created : (create register j later).1 = .ok v) (created' : (create register j later').1 = .ok v') :
    v = v' := by
  have same := (create_stable register unambiguous j later later' mentioned extended extended').1
  rw [created, created'] at same
  exact Except.ok.inj same

theorem keyword_type (type : TypeRef Ty) (j : Json) (p : Value Ty Job) :
    keyword register type (str "$type") j p = .ok p := by
  have others : str "$type" ≠ str "$value" ∧ str "$type" ≠ str "$job" ∧ str "$type" ≠ str "$task" := by decide
  unfold keyword
  rw [if_neg others.1, if_neg others.2.1, if_neg others.2.2]

theorem keyword_value (type : TypeRef Ty) (j : Json) (flags : Flags) (s : Scalar) :
    keyword register type (str "$value") j (.scalar flags s) = (scalarFor register type j).map (.scalar flags) := by
  unfold keyword
  rw [if_pos rfl]

/-- An object of a type and a value is read as the scalar that the value gives for the type. -/
theorem create_typedValue (table : Table Ty) (name : Str) (j : Json) :
    create register (.object [(str "$type", .string name), (str "$value", j)]) table =
      ((scalarFor register (resolve register table name).1 j).map (.scalar {}),
        (resolve register table name).2) := by
  have restricted : str "$type" ∈ restrictedKeys ∧ str "$value" ∈ restrictedKeys := by decide
  have other : ¬ str "$type" = str "$value" := by decide
  have starts (type : TypeRef Ty) : initialValue register type true = (.scalar {} .unset : Value Ty Job) := by
    unfold initialValue
    rw [Bool.or_true, if_pos rfl]
  rw [create, objectType, lookup, if_pos rfl]
  dsimp only
  rw [lookup, if_neg other, lookup, if_pos rfl, Option.isSome_some, starts, createMembers,
    if_pos restricted.1, keyword_type]
  dsimp only
  rw [createMembers, if_pos restricted.2, keyword_value]
  cases scalarFor register (resolve register table name).1 j with
  | error e => rfl
  | ok s => rfl

/-- A name without brackets that is in the table stands for its type. -/
theorem resolve_of_simple {table : Table Ty} {name : Str} {t : Ty} (simple : componentName name = none)
    (known : lookup name table = some t) : resolve register table name = (.base t, table) := by
  have found : getType table name = some (.base t) := by
    rw [getType, getTypeIn_of_simple simple, known]
    rfl
  simp only [resolve, found]

/-- Texts are accepted by the types that are called as theirs or `any`. -/
theorem accepts_string {t : Ty} (other : register.types.name t ≠ str "any") (text : register.types.name t ≠ str "string")
    (number : register.types.name t ≠ str "real" ∨ register.types.name register.types.integer ≠ str "string") :
    register.types.accepts (.base t) (.base register.types.string) = false := by
  have number' : ¬ (register.types.name t = str "real" ∧ str "string" = register.types.name register.types.integer) :=
    fun both => number.elim (fun ne => ne both.1) (fun ne => ne both.2.symm)
  simp only [Types.accepts, register.chain_string, Types.nameOf, register.name_string, register.name_any,
    register.name_real, List.any_cons, List.any_nil, Bool.or_eq_false_iff, beq_eq_false_iff_ne, Bool.or_false,
    Bool.and_eq_false_iff, ne_eq]
  refine ⟨⟨other, Ne.symm text, Ne.symm other⟩, ?_⟩
  exact not_and_or.mp number'

/-- A configuration for a path builds a path scalar and registers nothing. -/
theorem create_path_eq {table : Table Ty} (known : lookup (str "path") table = some register.types.path)
    (text : Str) :
    create register (.object [(str "$type", .string (str "path")), (str "$value", .string text)]) table =
      (.ok (.scalar {} (.path text)), table) := by
  have refused : register.types.accepts (.base register.types.path) (.base register.types.string) = false := by
    apply accepts_string
    · rw [register.name_path]
      decide
    · rw [register.name_path]
      decide
    · rw [register.name_path]
      exact .inl (by decide)
  have cast : scalarFor register (.base register.types.path) (.string text) = .ok (.path text) := by
    unfold scalarFor
    simp only [scalarOf, Scalar.null, Scalar.scalarType, Value.type, refused, Register.simple,
      register.valueType_path, Option.bind_some, Scalar.cast, Scalar.asPath, Option.map_some]
    rfl
  rw [create_typedValue, resolve_of_simple register (by decide) known, cast]
  rfl

theorem create_path {table : Table Ty} (known : lookup (str "path") table = some register.types.path)
    (text : Str) :
    (create register (.object [(str "$type", .string (str "path")), (str "$value", .string text)]) table).1 =
      .ok (.scalar {} (.path text)) := by
  rw [create_path_eq register known]

end

end Experimaestro.Configuration
