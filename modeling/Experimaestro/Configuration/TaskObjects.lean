/-
Module: Experimaestro.Configuration.TaskObjects
Layer: Configuration
Purpose: The process of a task: `run` reads the parameter file, validates the value and creates its objects, and the
  object of the task runs. What validation guarantees for the creation, where the classes are registered by
  `CppTypeBuilder`; and how the parameters of the client arrive in the members of the object that runs.
Imports: Experimaestro.Configuration.ArrayTypes (chains), Experimaestro.Configuration.NativeObjects,
  Experimaestro.Configuration.ParameterRecovery, Experimaestro.Configuration.Validity
Trusted boundary: human-reviewed model of the callback of `run` in Register::parse, and of Register::runTask
Main exports: startTask, Builds, Takes, task_starts, parameters_arrive
Open obligations: none
-/
import Mathlib.Tactic.Common
import Experimaestro.Configuration.ArrayTypes
import Experimaestro.Configuration.NativeObjects
import Experimaestro.Configuration.ParameterRecovery
import Experimaestro.Configuration.Validity

namespace Experimaestro.Configuration

open Value

/-! ### The process of a task -/

/-- How `run` ends before the object of the task runs. -/
inductive StartFailure where
  | thrown (e : Error)
  | object (e : ObjectError)
deriving DecidableEq, Repr

section

variable {Ty C Job : Type} [DecidableEq C] (register : Register Ty Job) (numbers : NumberFormat)
  (classes : Classes Ty C)

/-- The objects of a value that has been read, and the one on which `runTask` calls `run`. -/
def startValue (w : Value Ty Job) : Except StartFailure (Native C) :=
  if w.isMap then
    match validate register.types w with
    | (_, some e) => .error (.thrown e)
    | (v, none) =>
        match createObjects classes register.types register.conversions v with
        | .error e => .error (.object e)
        | .ok (some o) => .ok o
        | .ok none =>
            .error (.thrown (.exception (str "No object was created for structured value of type type(" ++
              register.types.nameOf (v.type register.types) ++ str ")")))
  else .error (.object .nullPointer)

/-- The callback of `run`, with a parameter file and no parameters on the command line. -/
def startTask (table : Table Ty) (text : Str) : Except StartFailure (Native C) :=
  match parse numbers text with
  | none => .error (.thrown .jsonError)
  | some j =>
      match (create register j table).1 with
      | .error e => .error (.thrown e)
      | .ok w => startValue register classes w

/-! ### Classes with types -/

/-- `type_of` for the type of a member. -/
def memberType : Member C → Ty
  | .string => register.types.string
  | .int | .long => register.types.integer
  | .bool => register.types.boolean
  | .path => register.types.path
  | .object target => classes.type target

/-- The names of the predefined types. -/
def predefinedNames : List Str :=
  [str "any", str "boolean", str "integer", str "real", str "string", str "path"]

/-- What `CppTypeBuilder` registers: a type for each class, with the constructor, the type of the parent class and an
argument for each member, under a name of its own. The predefined types are below the type any. -/
structure Builds (table : Table Ty) : Prop where
  constructed : ∀ t c, classes.constructors t = some c ↔ t = classes.type c
  parent : ∀ c, register.types.parent (classes.type c) = (classes.parent c).map classes.type
  declared : ∀ c name m, lookup name (classes.arguments c) = some m →
    ∃ a ∈ register.types.arguments (classes.type c), a.name = name ∧ a.type = .base (memberType register classes m)
  registered : ∀ c, lookup (register.types.name (classes.type c)) table = some (classes.type c)
  plain : ∀ c, (register.types.name (classes.type c)).getLast? ≠ some 0x5D
  named : ∀ c, register.types.name (classes.type c) ∉ predefinedNames
  name_boolean : register.types.name register.types.boolean = str "boolean"
  name_integer : register.types.name register.types.integer = str "integer"
  parent_any : register.types.parent register.types.any = none
  parent_simple : ∀ t ∈ [register.types.boolean, register.types.integer, register.types.real, register.types.string,
    register.types.path], register.types.parent t = some register.types.any

end

section

variable {Ty C Job : Type} {register : Register Ty Job} {classes : Classes Ty C}
  {table : Table Ty}

/-! ### Hierarchies of classes and of types -/

theorem Builds.type_inj (builds : Builds register classes table) {c c' : C} (same : classes.type c = classes.type c') :
    c = c' := by
  have one := (builds.constructed _ c).mpr rfl
  rw [same, (builds.constructed _ c').mpr rfl] at one
  exact (Option.some.inj one).symm

theorem Builds.chain (builds : Builds register classes table) (c : C) :
    register.types.chain (.base (classes.type c)) = .base (classes.type c) ::
      (classes.parent c).elim [] fun p => register.types.chain (.base (classes.type p)) := by
  rw [register.types.chain_eq, Types.parentOf, builds.parent]
  cases classes.parent c <;> rfl

/-- The chain of the type of a class consists of the types of the chain of the class. -/
theorem Builds.mem_chain (builds : Builds register classes table) {t : TypeRef Ty} {c : C} :
    t ∈ register.types.chain (.base (classes.type c)) ↔ ∃ owner ∈ classes.chain c, t = .base (classes.type owner) := by
  rw [Classes.chain]
  have enough : classes.level c < classes.level c + 1 := Nat.lt_succ_self _
  generalize classes.level c + 1 = n at enough
  induction n generalizing c with
  | zero => cases enough
  | succ n ih =>
      rw [builds.chain, Classes.chainOf]
      cases up : classes.parent c with
      | none => simp
      | some p =>
          have lower := classes.level_lt c p up
          simp only [List.mem_cons, Option.elim_some, ih (show classes.level p < n by omega), exists_eq_or_imp]

/-! ### What the types of members accept -/

/-- The type of a class accepts the type of another class exactly if this one is below. -/
theorem Builds.accepts_class (builds : Builds register classes table) {target c : C}
    (accepted : register.types.accepts (.base (classes.type target)) (.base (classes.type c)) = true) :
    target ∈ classes.chain c := by
  have named := builds.named target
  simp only [predefinedNames, List.mem_cons, List.not_mem_nil, or_false, not_or] at named
  rw [Types.accepts, Bool.or_eq_true, Bool.or_eq_true, Bool.and_eq_true, List.any_eq_true] at accepted
  simp only [beq_iff_eq, Types.nameOf] at accepted
  rcases accepted with (any | ⟨above, inside, same⟩) | ⟨real, _⟩
  · exact absurd any named.1
  · obtain ⟨owner, there, rfl⟩ := builds.mem_chain.mp inside
    have one := builds.registered owner
    have two := builds.registered target
    rw [← same, Types.nameOf, one] at two
    rw [← builds.type_inj (Option.some.inj two)]
    exact there
  · rw [register.name_real] at real
    exact absurd real named.2.2.2.1

theorem Builds.mem_chain_scalar (builds : Builds register classes table) {flags : Flags} {s : Scalar} {t : TypeRef Ty}
    (inside : t ∈ register.types.chain ((.scalar flags s : Value Ty Job).type register.types)) :
    t = (.scalar flags s : Value Ty Job).type register.types ∨ t = .base register.types.any := by
  have top : register.types.chain (.base register.types.any) = [.base register.types.any] := by
    rw [register.types.chain_eq, Types.parentOf, builds.parent_any]
    rfl
  have below {u : Ty} (simple : register.types.parent u = some register.types.any)
      (inside : t ∈ register.types.chain (.base u)) : t = .base u ∨ t = .base register.types.any := by
    rw [register.types.chain_eq, Types.parentOf, simple, Option.map_some] at inside
    dsimp only at inside
    rw [top] at inside
    simpa using inside
  have parents := builds.parent_simple
  simp only [List.forall_mem_cons] at parents
  obtain ⟨boolean, integer, real, string, path, _⟩ := parents
  cases s with
  | unset => exact Or.inr (List.mem_singleton.mp (top ▸ inside))
  | none => exact Or.inr (List.mem_singleton.mp (top ▸ inside))
  | boolean b => exact below boolean inside
  | integer n => exact below integer inside
  | real bits => exact below real inside
  | string text => exact below string inside
  | path text => exact below path inside

/-- The name of the type of a scalar. -/
def ScalarType.typeName : ScalarType → Str
  | .unset | .none => str "any"
  | .boolean => str "boolean"
  | .integer => str "integer"
  | .real => str "real"
  | .string => str "string"
  | .path => str "path"

theorem ScalarType.typeName_eq {a b : ScalarType} (same : a.typeName = b.typeName) :
    a = b ∨ b.typeName = str "any" := by
  revert same
  cases a <;> cases b <;> decide

theorem Builds.nameOf_scalar (builds : Builds register classes table) (flags : Flags) (s : Scalar) :
    register.types.nameOf ((.scalar flags s : Value Ty Job).type register.types) = s.scalarType.typeName := by
  cases s with
  | unset => exact register.name_any
  | none => exact register.name_any
  | boolean b => exact builds.name_boolean
  | integer n => exact builds.name_integer
  | real bits => exact register.name_real
  | string text => exact register.name_string
  | path text => exact register.name_path

/-- A type other than those of real numbers and of anything accepts scalars of its own name only. -/
theorem Builds.accepts_scalar (builds : Builds register classes table) {flags : Flags} {s : Scalar} {t : Ty}
    (any : register.types.name t ≠ str "any") (real : register.types.name t ≠ str "real")
    (accepted : register.types.accepts (.base t) ((.scalar flags s : Value Ty Job).type register.types) = true) :
    s.scalarType.typeName = register.types.name t := by
  rw [Types.accepts, Bool.or_eq_true, Bool.or_eq_true, Bool.and_eq_true, List.any_eq_true] at accepted
  simp only [beq_iff_eq, Types.nameOf, register.name_real] at accepted
  rcases accepted with (all | ⟨above, inside, same⟩) | ⟨number, _⟩
  · exact absurd all any
  · rcases builds.mem_chain_scalar inside with rfl | rfl
    · rw [← same, builds.nameOf_scalar]
    · rw [Types.nameOf, register.name_any] at same
      exact absurd same.symm any
  · exact absurd number real

/-- The scalars for a member. -/
def Member.scalarType : Member C → ScalarType
  | .string => .string
  | .int | .long => .integer
  | .bool => .boolean
  | .path => .path
  | .object _ => .none

/-- A scalar that the type of a member accepts is converted. -/
theorem Builds.accepts_member (builds : Builds register classes table) {flags : Flags} {s : Scalar} {m : Member C}
    (plain : ∀ target, m ≠ .object target)
    (accepted : register.types.accepts (.base (memberType register classes m))
      ((.scalar flags s : Value Ty Job).type register.types) = true) :
    ∃ n, scalarMember register.conversions s m = .ok n := by
  have name : register.types.name (memberType register classes m) = m.scalarType.typeName := by
    cases m with
    | object target => exact absurd rfl (plain target)
    | string => exact register.name_string
    | bool => exact builds.name_boolean
    | path => exact register.name_path
    | _ => exact builds.name_integer
  have other : m.scalarType.typeName ≠ str "any" ∧ m.scalarType.typeName ≠ str "real" := by
    have others : ∀ kind ∈ [ScalarType.string, .integer, .boolean, .path],
        kind.typeName ≠ str "any" ∧ kind.typeName ≠ str "real" := by decide
    cases m with
    | object target => exact absurd rfl (plain target)
    | _ => exact others _ (by simp [Member.scalarType])
  have same := builds.accepts_scalar (name ▸ other.1) (name ▸ other.2) accepted
  have kind : s.scalarType = m.scalarType := by
    rcases ScalarType.typeName_eq (same.trans name) with kind | any
    · exact kind
    · exact absurd any other.1
  cases m with
  | object target => exact absurd rfl (plain target)
  | _ =>
      cases s <;> cases kind
      exact ⟨_, rfl⟩

/-- A member that is a pointer to an object of a class accepts neither scalars, other than null, nor arrays. -/
theorem Builds.rejects_array (builds : Builds register classes table) {target : C} {component : TypeRef Ty} :
    register.types.accepts (.base (classes.type target)) (.array component) = false := by
  have named := builds.named target
  simp only [predefinedNames, List.mem_cons, List.not_mem_nil, or_false, not_or] at named
  apply Bool.eq_false_iff.mpr
  intro accepted
  rw [Types.accepts, Bool.or_eq_true, Bool.or_eq_true, Bool.and_eq_true, List.any_eq_true] at accepted
  simp only [beq_iff_eq, register.types.chain_array, List.mem_map] at accepted
  rcases accepted with (any | ⟨_, ⟨above, _, rfl⟩, same⟩) | ⟨real, _⟩
  · exact named.1 any
  · exact register.types.nameOf_array_ne above _ (builds.plain target) same
  · rw [register.name_real] at real
    exact named.2.2.2.1 real

theorem Builds.rejects_scalar (builds : Builds register classes table) {target : C} {flags : Flags} {s : Scalar} :
    register.types.accepts (.base (classes.type target)) ((.scalar flags s : Value Ty Job).type register.types) =
      false := by
  have named := builds.named target
  apply Bool.eq_false_iff.mpr
  intro accepted
  have same : s.scalarType.typeName = register.types.name (classes.type target) := by
    apply builds.accepts_scalar _ _ accepted
    · exact fun any => named (any ▸ List.mem_cons_self)
    · exact fun real => named (real ▸ by decide)
  apply named
  rw [← same]
  cases s.scalarType <;> decide

/-! ### What validation guarantees -/

variable (register classes) in
/-- What is left to ask of a value that validation has accepted for a member: an object has a class, and there is no
null but for a pointer and a truth value. -/
def Takes (m : Member C) (v : Value Ty Job) : Prop :=
  match m with
  | .object _ => v.isNull = true ∨ (classes.classOf (v.type register.types)).isSome = true
  | .bool => v.isScalar = true
  | _ => v.isScalar = true ∧ v.isNull = false

theorem isNull_scalar {flags : Flags} {s : Scalar} : (.scalar flags s : Value Ty Job).isNull = false ↔ s ≠ .none := by
  cases s <;> simp [Value.isNull, Scalar.null, Scalar.scalarType]

/-- Scalars for members that are no pointers. -/
theorem Builds.assignable_scalar (builds : Builds register classes table) {m : Member C} {flags : Flags} {s : Scalar}
    (plain : ∀ target, m ≠ .object target)
    (accepted : (.scalar flags s : Value Ty Job).isNull = false → register.types.accepts
      (.base (memberType register classes m)) ((.scalar flags s : Value Ty Job).type register.types) = true) :
    (∃ n, scalarMember register.conversions s m = .ok n) ↔ s = .none → m = .bool := by
  by_cases null : s = .none
  · subst null
    cases m with
    | object target => exact absurd rfl (plain target)
    | bool => exact iff_of_true ⟨_, rfl⟩ fun _ => rfl
    | _ =>
        apply iff_of_false
        · rintro ⟨n, ok⟩
          cases ok
        · intro only
          cases only rfl
  · apply iff_of_true
    · exact builds.accepts_member plain (accepted (isNull_scalar.mpr null))
    · exact fun same => absurd same null

/-- A value that the argument of a member is satisfied with can be assigned, if nothing is left to ask. -/
theorem Builds.assignable_iff (builds : Builds register classes table) {m : Member C} {v : Value Ty Job}
    (accepted : v.isNull = false →
      register.types.accepts (.base (memberType register classes m)) (v.type register.types) = true) :
    Assignable classes register.types register.conversions m v ↔ Takes register classes m v := by
  cases m with
  | object target =>
      constructor
      · rintro (null | ⟨_, c, made, _⟩)
        · exact Or.inl null
        · exact Or.inr (made ▸ rfl)
      · rintro (null | made)
        · exact Or.inl null
        · obtain ⟨c, made⟩ := Option.isSome_iff_exists.mp made
          cases v with
          | scalar flags s =>
              cases null : (.scalar flags s : Value Ty Job).isNull with
              | true => exact Or.inl null
              | false => exact absurd (builds.rejects_scalar.symm.trans (accepted null)) Bool.false_ne_true
          | array flags ctype elements =>
              exact absurd (builds.rejects_array.symm.trans (accepted rfl)) Bool.false_ne_true
          | map flags type task job children =>
              have inside := accepted rfl
              cases type with
              | array component => cases made
              | base t =>
                  cases (builds.constructed t c).mp made
                  exact Or.inr ⟨rfl, c, made, builds.accepts_class inside⟩
  | _ =>
      cases v with
      | scalar flags s =>
          have converted := builds.assignable_scalar (by simp) accepted
          simp [Assignable, Takes, Value.toScalar, Value.isScalar, converted, isNull_scalar]
      | _ => simp [Assignable, Takes, Value.toScalar, Value.isScalar]

/-! ### Values that have been read -/

theorem Produced.keyed {later : Table Ty} {v : Value Ty Job} (produced : Produced register later v) : Keyed v := by
  induction produced with
  | scalar => exact .scalar
  | array _ _ ih => exact .array ih
  | map _ _ _ ordered _ _ _ ih =>
      apply Keyed.map _ ih
      apply List.pairwise_map.mpr
      apply ordered.imp
      intro one two less same
      rw [same, keyLess_irrefl] at less
      cases less

theorem markFor_validated {a : Option (Argument Ty Job)} {v m : Value Ty Job} (marks : markFor a v = .ok m) :
    m.flags.validated = v.flags.validated := by
  cases a with
  | none =>
      cases marks
      rfl
  | some argument =>
      obtain ⟨isDefault, _, rfl⟩ := except_map_eq_ok.mp marks
      rw [flags_withFlags]

/-- Nothing below a value that has been read carries VALIDATED. -/
theorem Produced.unvalidated {later : Table Ty} {v : Value Ty Job} (produced : Produced register later v) :
    v.flags.validated = false → ∀ way target, v.descend way = some target → target.flags.validated = false := by
  induction produced with
  | scalar =>
      intro fresh way target reached
      cases way with
      | nil =>
          cases reached
          exact fresh
      | cons s rest => cases s <;> cases reached
  | array fresh each ih =>
      intro root way target reached
      cases way with
      | nil =>
          cases reached
          exact root
      | cons s rest =>
          obtain ⟨c, found, below⟩ := Option.bind_eq_some_iff.mp reached
          cases s with
          | key name => cases found
          | index i =>
              have member := List.mem_of_getElem? found
              exact ih c member (by rw [fresh c member]) rest target below
  | map known structured tasked ordered free marked each ih =>
      intro root way target reached
      cases way with
      | nil =>
          cases reached
          exact root
      | cons s rest =>
          obtain ⟨c, found, below⟩ := Option.bind_eq_some_iff.mp reached
          cases s with
          | index i => cases found
          | key name =>
              have member := mem_of_lookup found
              have unmarked := markFor_validated (marked _ member)
              rw [unflagged, flags_withFlags] at unmarked
              exact ih _ member unmarked rest target below

theorem Produced.truthful {later : Table Ty} {v : Value Ty Job} (produced : Produced register later v)
    (fresh : v.flags = {}) : Truthful register.types v := by
  intro way target reached validated
  rw [produced.unvalidated (by rw [fresh]) way target reached] at validated
  cases validated

/-- Validation has checked what a member stands for. -/
theorem Builds.accepted (builds : Builds register classes table) {name : Str} {v : Value Ty Job}
    {found : Member C × Value Ty Job} (complies : Complies register.types v)
    (is : memberValue classes name v = some found) (notNull : found.2.isNull = false) :
    register.types.accepts (.base (memberType register classes found.1)) (found.2.type register.types) = true := by
  cases v with
  | map flags type task job children =>
      obtain ⟨⟨owner, m⟩, sets, is⟩ := Option.bind_eq_some_iff.mp is
      obtain ⟨child, stored, rfl⟩ := Option.map_eq_some_iff.mp is
      obtain ⟨c, made, nearest⟩ := Option.bind_eq_some_iff.mp sets
      cases type with
      | array component => cases made
      | base t =>
          cases (builds.constructed t c).mp made
          obtain ⟨owner', inside, at_owner⟩ := List.exists_of_findSome?_eq_some nearest
          obtain ⟨m', given, same⟩ := Option.map_eq_some_iff.mp at_owner
          cases same
          obtain ⟨a, argument, rfl, typed⟩ := builds.declared owner name m given
          have declared : a ∈ register.types.declarations (.base (classes.type c)) :=
            List.mem_flatMap.mpr ⟨_, builds.mem_chain.mpr ⟨owner, inside, rfl⟩, argument⟩
          have supplied := complies_map.mp complies a declared
          rw [stored, Supplied, if_neg (by rw [notNull]; exact Bool.false_ne_true), typed] at supplied
          exact supplied
  | _ => cases is

/-! ### Validation of what is valid -/

theorem finishValidation_passes {v : Value Ty Job} {r : Validated Ty Job} (passed : r.2 = none) :
    (finishValidation v r).2 = none := by
  obtain ⟨after, thrown⟩ := r
  cases passed
  unfold finishValidation
  split <;> rfl

theorem validateElements_passes {types : Types Ty Job} {elements : List (Value Ty Job)}
    (each : ∀ element ∈ elements, (validate types element).2 = none) (index : ℕ) :
    (validateElements types index elements).2 = none := by
  induction elements generalizing index with
  | nil => rw [validateElements]
  | cons element rest ih =>
      rw [List.forall_mem_cons] at each
      rw [validateElements]
      cases outcome : validate types element with
      | mk after thrown =>
          rw [outcome] at each
          cases each.1
          exact ih each.2 (index + 1)

theorem validateArguments_passes {types : Types Ty Job} {type : TypeRef Ty}
    {table : List (Str × Value Ty Job × Validated Ty Job)} {arguments : List (Argument Ty Job)}
    (each : ∀ a ∈ arguments, validateArgument types type a (lookup a.name table) = none)
    (children : List (Str × Value Ty Job)) : (validateArguments types type table arguments children).2 = none := by
  induction arguments generalizing children with
  | nil => rfl
  | cons a rest ih =>
      rw [List.forall_mem_cons] at each
      rw [validateArguments, each.1]
      exact ih each.2 _

theorem validateArgument_passes {types : Types Ty Job} {type : TypeRef Ty} {a : Argument Ty Job}
    {given : Option (Value Ty Job)} (supplied : Supplied types a given)
    (below : ∀ c, given = some c → (validate types c).2 = none) :
    validateArgument types type a (given.map fun c => (c, validate types c)) = none := by
  cases given with
  | none =>
      have optional : a.required = false := supplied
      simp [validateArgument, optional]
  | some c =>
      rw [Option.map_some, validateArgument]
      rw [Supplied] at supplied
      cases null : c.isNull with
      | true =>
          have optional : a.required = false := by simpa [null] using supplied
          simp [optional]
      | false =>
          have accepted : types.accepts a.type (c.type types) = true := by simpa [null] using supplied
          simp [accepted, below c rfl]

/-- Validation goes through a valid value. -/
theorem validate_of_valid {types : Types Ty Job} {v : Value Ty Job} (valid : Valid types v) :
    (validate types v).2 = none := by
  induction v using Value.child_induction with
  | step v ih =>
      obtain ⟨complies, below⟩ := valid_iff.mp valid
      cases v with
      | scalar flags s =>
          rw [validate]
          exact finishValidation_passes rfl
      | array flags ctype elements =>
          rw [validate]
          apply finishValidation_passes
          apply validateElements_passes
          intro element member
          obtain ⟨i, found⟩ := List.mem_iff_getElem?.mp member
          exact ih (.index i) element found (below (.index i) element trivial found)
      | map flags type task job children =>
          rw [validate]
          apply finishValidation_passes
          apply validateArguments_passes
          intro a declared
          rw [lookup_validationTable]
          apply validateArgument_passes (complies_map.mp complies a declared)
          intro c given
          exact ih (.key a.name) c given (below (.key a.name) c ⟨a, declared, rfl⟩ given)

end

section

variable {Ty C Job : Type} [DecidableEq C] {register : Register Ty Job} {numbers : NumberFormat}
  {classes : Classes Ty C} {types : Types Ty Job} {conversions : Conversions} {table : Table Ty}

/-! ### Creation does not look at flags -/

theorem assignValue_mapFlags (f : Flags → Flags) (v : Value Ty Job) (created : Option (Native C)) (m : Member C) :
    assignValue classes types conversions (v.mapFlags f) created m =
      assignValue classes types conversions v created m := by
  cases v <;> cases m <;> rw [mapFlags] <;> rfl

theorem setValues_mapFlags (f : Flags → Flags) (entries : List (Str × Value Ty Job × Option (Native C))) :
    ∀ o, Native.setValues classes types conversions (entries.map fun e => (e.1, e.2.1.mapFlags f, e.2.2)) o =
      Native.setValues classes types conversions entries o := by
  induction entries with
  | nil => exact fun o => rfl
  | cons entry rest ih =>
      intro o
      rw [List.map_cons, Native.setValues, Native.setValues]
      have first : o.setValue classes types conversions entry.1 (entry.2.1.mapFlags f) entry.2.2 =
          o.setValue classes types conversions entry.1 entry.2.1 entry.2.2 := by
        simp only [Native.setValue, assignValue_mapFlags]
      rw [first]
      exact congrArg _ (funext ih)

mutual

theorem createObjects_mapFlags (f : Flags → Flags) : ∀ v : Value Ty Job,
    createObjects classes types conversions (v.mapFlags f) = createObjects classes types conversions v
  | .scalar flags s => by rw [mapFlags, createObjects, createObjects]
  | .array flags ctype elements => by
      rw [mapFlags, createObjects, createObjects, createElementObjects_mapFlags f elements]
  | .map flags type task job children => by
      rw [mapFlags, createObjects, createObjects, createChildObjects_mapFlags f children]
      cases createChildObjects classes types conversions children with
      | error e => rfl
      | ok entries => exact congrArg (Except.map some) (setValues_mapFlags f entries _)

theorem createElementObjects_mapFlags (f : Flags → Flags) : ∀ elements : List (Value Ty Job),
    createElementObjects classes types conversions (mapFlagsElements f elements) =
      createElementObjects classes types conversions elements
  | [] => by rw [mapFlagsElements]
  | element :: rest => by
      rw [mapFlagsElements, createElementObjects, createElementObjects, createObjects_mapFlags f element,
        createElementObjects_mapFlags f rest]

theorem createChildObjects_mapFlags (f : Flags → Flags) : ∀ children : List (Str × Value Ty Job),
    createChildObjects classes types conversions (mapFlagsChildren f children) =
      (createChildObjects classes types conversions children).map
        (List.map fun e => (e.1, e.2.1.mapFlags f, e.2.2))
  | [] => by rw [mapFlagsChildren, createChildObjects]; rfl
  | (name, child) :: rest => by
      rw [mapFlagsChildren, createChildObjects, createChildObjects, createObjects_mapFlags f child,
        createChildObjects_mapFlags f rest]
      cases createObjects classes types conversions child with
      | error e => rfl
      | ok created => cases createChildObjects classes types conversions rest <;> rfl

end

theorem createObjects_validate (w : Value Ty Job) :
    createObjects classes types conversions (validate types w).1 = createObjects classes types conversions w := by
  rw [← createObjects_mapFlags coreFlags, ← createObjects_mapFlags coreFlags w]
  exact congrArg _ (core_validate types w)

/-! ### The start of a task -/

/-- An object runs where validation accepts the value and its objects can be created. -/
theorem startValue_eq_ok {w : Value Ty Job} {o : Native C} :
    startValue register classes w = .ok o ↔
      (validate register.types w).2 = none ∧
        createObjects classes register.types register.conversions w = .ok (some o) := by
  rw [← createObjects_validate, startValue]
  cases outcome : validate register.types w with
  | mk v thrown =>
      split
      case isTrue isMap =>
          cases thrown with
          | some e => simp
          | none =>
              dsimp only
              cases createObjects classes register.types register.conversions v with
              | error e => simp
              | ok created => cases created <;> simp
      case isFalse plain =>
          apply iff_of_false
          · rintro ⟨⟩
          · rintro ⟨_, created⟩
            have same : createObjects classes register.types register.conversions (validate register.types w).1 =
                createObjects classes register.types register.conversions w := createObjects_validate w
            rw [outcome, created] at same
            obtain ⟨_, _, _, _, _, rfl⟩ := createObjects_some same.symm
            exact plain rfl

/-- A map for which objects are created has one itself. -/
theorem created_object {w : Value Ty Job} (isMap : w.isMap = true) :
    (∃ o, createObjects classes types conversions w = .ok (some o)) ↔
      ∃ o, createObjects classes types conversions w = .ok o := by
  constructor
  · rintro ⟨o, created⟩
    exact ⟨some o, created⟩
  · rintro ⟨o, created⟩
    cases w with
    | map flags type task job children =>
        rw [createObjects, bind_eq_ok] at created
        obtain ⟨entries, below, loop⟩ := created
        obtain ⟨n, done, rfl⟩ := except_map_eq_ok.mp loop
        refine ⟨n, ?_⟩
        rw [createObjects, bind_eq_ok]
        exact ⟨entries, below, loop⟩
    | _ => cases isMap

variable (register numbers table) in
/-- What is read from a parameter file. -/
def FileHolds (text : Str) (w : Value Ty Job) : Prop :=
  ∃ j, parse numbers text = some j ∧ (create register j table).1 = .ok w

variable (register classes) in
/-- What is left to ask of a value that validation has accepted: little where it has looked, all below the keys that are
not declared. -/
def Startable (w : Value Ty Job) : Prop :=
  ∀ way target, w.descend way = some target → ∀ name found, memberValue classes name target = some found →
    (Live register.types way w → Takes register classes found.1 found.2) ∧
      (¬ Live register.types way w → Assignable classes register.types register.conversions found.1 found.2)

omit [DecidableEq C] in
theorem Builds.startable_iff (builds : Builds register classes table) {w : Value Ty Job}
    (valid : Valid register.types w) :
    Startable register classes w ↔
      ∀ way target, w.descend way = some target → ∀ name found, memberValue classes name target = some found →
        Assignable classes register.types register.conversions found.1 found.2 := by
  apply forall_congr' fun way => forall_congr' fun target => forall_congr' fun reached => ?_
  apply forall_congr' fun name => forall_congr' fun found => forall_congr' fun is => ?_
  by_cases live : Live register.types way w
  · have complies := valid way target live reached
    have same := builds.assignable_iff (builds.accepted complies is)
    simp [live, same]
  · simp [live]

theorem startTask_eq_ok {text : Str} {o : Native C} :
    startTask register numbers classes table text = .ok o ↔
      ∃ w, FileHolds register numbers table text w ∧ startValue register classes w = .ok o := by
  rw [startTask]
  constructor
  · intro started
    cases parsed : parse numbers text with
    | none => simp [parsed] at started
    | some j =>
        cases read : (create register j table).1 with
        | error e => simp [parsed, read] at started
        | ok w =>
            simp only [parsed, read] at started
            exact ⟨w, ⟨j, parsed, read⟩, started⟩
  · rintro ⟨w, ⟨j, parsed, read⟩, started⟩
    simp only [parsed, read]
    exact started

theorem FileHolds.unique {text : Str} {w w' : Value Ty Job} (read : FileHolds register numbers table text w)
    (read' : FileHolds register numbers table text w') : w = w' := by
  obtain ⟨j, parsed, created⟩ := read
  obtain ⟨j', parsed', created'⟩ := read'
  cases parsed.symm.trans parsed'
  exact Except.ok.inj (created.symm.trans created')

theorem FileHolds.produced (registered : Registered register table) {text : Str} {w : Value Ty Job}
    (read : FileHolds register numbers table text w) : ∃ later, w.flags = {} ∧ Produced register later w := by
  obtain ⟨j, _, created⟩ := read
  exact ⟨_, (create_built register j registered).produced w created⟩

/-! ### A program -/

/-- The types of the samples, where `A` has the integer `x`, and `B` below it a pointer `a` to an `A` and the path
`out`, if it is given. -/
def objectTypes : Types Sample Unit :=
  { sampleTypes with
    arguments := fun
      | .A => [{ name := str "x", type := .base .integer }]
      | .B => [{ name := str "a", type := .base .A }, { name := str "out", type := .base .path, required := false }]
      | _ => []
    nodup := fun t => by cases t <;> first | decide | exact List.nodup_nil }

def objectRegister : Register Sample Unit :=
  { sampleRegister with types := objectTypes }

/-- The classes of the samples. -/
inductive SampleClass where
  | A
  | B
deriving DecidableEq

def sampleClasses : Classes Sample SampleClass where
  constructors
    | .A => some .A
    | .B => some .B
    | _ => none
  type
    | .A => .A
    | .B => .B
  arguments
    | .A => [(str "x", .long)]
    | .B => [(str "a", .object .A), (str "out", .path)]
  parent
    | .A => none
    | .B => some .A
  level
    | .A => 0
    | .B => 1
  level_lt c p up := by cases c <;> cases up; decide

theorem object_builds : Builds objectRegister sampleClasses sampleTable where
  constructed t c := by cases t <;> cases c <;> simp [sampleClasses]
  parent c := by cases c <;> rfl
  declared c name m found := by
    have each : ∀ entry ∈ sampleClasses.arguments c, ∃ a ∈ objectTypes.arguments (sampleClasses.type c),
        a.name = entry.1 ∧ a.type = .base (memberType objectRegister sampleClasses entry.2) := by
      cases c <;> simp [sampleClasses, objectTypes, memberType, objectRegister, sampleTypes]
    exact each (name, m) (mem_of_lookup found)
  registered c := by cases c <;> rfl
  plain c := by cases c <;> decide
  named c := by cases c <;> decide
  name_boolean := rfl
  name_integer := rfl
  parent_any := rfl
  parent_simple := by decide

theorem object_registered : Registered objectRegister sampleTable where
  keyed name t found := by
    have each : ∀ entry ∈ sampleTable, objectTypes.name entry.2 = entry.1 := by decide
    exact each _ (mem_of_lookup found)
  any := rfl
  path := rfl
  task name identifier found := by cases found; rfl

/-- A `B` with an `A` inside. -/
def nestedValue : Value Sample Unit :=
  .map {} (.base .B) none none
    [(str "a", .map {} (.base .A) none none [(str "x", .scalar {} (.integer 4))]),
      (str "out", .scalar {} (.path (str "/tmp"))), (str "x", .scalar {} (.integer 5))]

theorem nested_plain : PlainTexts objectRegister ⟨[]⟩ nestedValue := by
  have number (n : Int64) : PlainTexts objectRegister ⟨[]⟩ (.scalar {} (.integer n) : Value Sample Unit) := by
    apply PlainTexts.scalar
    rintro _ _ ⟨⟩
  have inner : PlainTexts objectRegister ⟨[]⟩
      (.map {} (.base .A) none none [(str "x", .scalar {} (.integer 4))] : Value Sample Unit) :=
    plainTexts_map (by decide) (List.forall_mem_singleton.mpr (number 4))
  have out : PlainTexts objectRegister ⟨[]⟩ (.scalar {} (.path (str "/tmp")) : Value Sample Unit) := by
    apply PlainTexts.scalar
    intro text resolved same resolves
    cases same
    cases resolves
    decide
  apply plainTexts_map (by decide)
  simp only [List.forall_mem_cons]
  exact ⟨inner, out, number 5, nofun⟩

theorem nested_recoverable : Recoverable objectRegister (fun _ => str "job") sampleTable nestedValue sampleTable := by
  have declared {type : TypeRef Sample} {children : List (Str × Value Sample Unit)}
      (each : ∀ entry ∈ children, entry.1 ∈ objectTypes.declaredNames type) (key : Str)
      (child : Value Sample Unit) (found : lookup key children = some child) :
      key ∈ objectTypes.declaredNames type := each _ (mem_of_lookup found)
  have inner : Recoverable objectRegister (fun _ => str "job") sampleTable
      (.map {} (.base .A) none none [(str "x", .scalar {} (.integer 4))]) sampleTable :=
    .map rfl rfl rfl nofun (declared (by decide)) (.present rfl (.scalar (.integer 4)) ⟨_, rfl⟩ .nil)
  exact .map rfl rfl rfl nofun (declared (by decide))
    (.present rfl inner ⟨_, rfl⟩ (.present rfl (.path ⟨rfl, rfl⟩) ⟨_, rfl⟩
      (.present rfl (.scalar (.integer 5)) ⟨_, rfl⟩ .nil)))

/-- What is read from the parameter file. -/
theorem nested_written : ∃ text, outputJson objectRegister bitsFormat ⟨[]⟩ (fun _ => str "job") nestedValue = .ok text ∧
    ∃ j, parse bitsFormat text = some j ∧ create objectRegister j sampleTable = (.ok nestedValue, sampleTable) := by
  have keeps : KeepsParameters objectRegister bitsFormat ⟨[]⟩ (fun _ => str "job") sampleTable nestedValue :=
    keepsParameters_of_recoverable nested_plain nested_recoverable
  obtain ⟨text, written, _⟩ := keeps
  refine ⟨text, written, _, (outputJson_parses nestedValue nested_plain text written).parse, ?_⟩
  rfl

/-- The task runs exactly if a valid map is read and the members can take what validation does not look at; then the
members of the objects hold what the value has. -/
theorem task_starts (builds : Builds register classes table) (registered : Registered register table) (text : Str) :
    ((∃ o, startTask register numbers classes table text = .ok o) ↔
      ∃ w, FileHolds register numbers table text w ∧ w.isMap = true ∧ Valid register.types w ∧
        Startable register classes w) ∧
      ∀ o w, startTask register numbers classes table text = .ok o → FileHolds register numbers table text w → ∀ path,
        o.get classes path = imageAt classes register.types register.conversions path w := by
  constructor
  · constructor
    · rintro ⟨o, started⟩
      obtain ⟨w, read, started⟩ := startTask_eq_ok.mp started
      obtain ⟨later, fresh, produced⟩ := read.produced registered
      obtain ⟨validated, created⟩ := startValue_eq_ok.mp started
      have valid := valid_of_validate w (produced.truthful fresh) validated
      obtain ⟨_, _, _, _, _, rfl⟩ := createObjects_some created
      exact ⟨_, read, rfl, valid, (builds.startable_iff valid).mpr ((created_iff produced.keyed).mp ⟨_, created⟩)⟩
    · rintro ⟨w, read, isMap, valid, fits⟩
      obtain ⟨later, _, produced⟩ := read.produced registered
      have created := (created_iff produced.keyed).mpr ((builds.startable_iff valid).mp fits)
      obtain ⟨o, created⟩ := (created_object isMap).mpr created
      exact ⟨o, startTask_eq_ok.mpr ⟨w, read, startValue_eq_ok.mpr ⟨validate_of_valid valid, created⟩⟩⟩
  · intro o w started read path
    obtain ⟨w', read', started⟩ := startTask_eq_ok.mp started
    cases read.unique read'
    obtain ⟨later, _, produced⟩ := read.produced registered
    exact objects_mirror produced.keyed (startValue_eq_ok.mp started).2 path

/-- The task of the `B` runs. -/
theorem task_starts_nested : ∃ text,
    outputJson objectRegister bitsFormat ⟨[]⟩ (fun _ => str "job") nestedValue = .ok text ∧
      Valid objectTypes nestedValue ∧
        ∃ o, startTask objectRegister bitsFormat sampleClasses sampleTable text = .ok o ∧
          o.get sampleClasses [str "a", str "x"] = some (.integer 4) := by
  obtain ⟨text, written, j, parsed, created⟩ := nested_written
  have read : FileHolds objectRegister bitsFormat sampleTable text nestedValue :=
    ⟨j, parsed, congrArg Prod.fst created⟩
  have runs : ∃ o, startTask objectRegister bitsFormat sampleClasses sampleTable text = .ok o :=
    ⟨_, startTask_eq_ok.mpr ⟨_, read, rfl⟩⟩
  obtain ⟨starts, mirror⟩ := task_starts object_builds object_registered text
  obtain ⟨w, read', _, valid, _⟩ := starts.mp runs
  cases read.unique read'
  obtain ⟨o, started⟩ := runs
  exact ⟨text, written, valid, o, started, mirror o nestedValue started read _⟩

/-! ### Parameters on their way -/

variable (register classes table) in
/-- The scalar that the client has given for a member: the path leads from map to map by members that are pointers,
where the class of a map is that of the type registered under the name of its type. -/
def parameterAt : List Str → Value Ty Job → Option (Member C × Scalar)
  | name :: rest, .map _ type _ _ children =>
      (lookup (register.types.nameOf type) table).bind fun t =>
        (classes.setterOf (.base t) name).bind fun found =>
          (lookup name children).bind fun child =>
            match found.2 with
            | .object _ => parameterAt rest child
            | m => if rest = [] then child.toScalar.map fun s => (m, s) else none
  | _, _ => none

theorem componentName_plain {name : Str} (plain : name.getLast? ≠ some 0x5D) : componentName name = none := by
  rw [componentName, if_neg]
  rintro ⟨long, ends⟩
  apply plain
  rw [← List.take_append_drop (name.length - 2) name, ends, List.getLast?_append]
  rfl

omit [DecidableEq C] in
/-- The type of a map that has been read is the registered one. -/
theorem Builds.read_type (builds : Builds register classes table) (registered : Registered register table)
    {later : Table Ty} (grows : Preserves table later) {t u : Ty} {c : C} (known : Known register later t)
    (there : lookup (register.types.name t) table = some u) (made : classes.constructors u = some c) : t = u := by
  have named := registered.keyed _ _ there
  cases (builds.constructed u c).mp made
  have simple : componentName (register.types.name t) = none := by
    rw [← named]
    exact componentName_plain (builds.plain c)
  rcases known with ⟨_, found⟩ | ⟨array, _⟩
  · rw [grows _ _ simple there] at found
    exact (Option.some.inj found).symm
  · exact absurd simple array

variable (register classes) in
/-- What a parameter is in the value that has been read. -/
structure Arrived (connector : Connector) (path : List Str) (w : Value Ty Job) (m : Member C) (s s' : Scalar) :
    Prop where
  same : SameContent register connector s s'
  image : imageAt classes register.types register.conversions path w = (scalarMember register.conversions s' m).toOption
  place : ∃ way target name child, w.descend way = some target ∧ memberValue classes name target = some (m, child) ∧
    child.toScalar = some s'
  plain : ∀ target, m ≠ .object target

/-- The end of a path. -/
theorem arrived_leaf {connector : Connector} {name : Str} {rest : List Str} {w child image : Value Ty Job}
    {kind m : Member C} {s : Scalar} (recovered : Recovered register connector child image)
    (is : memberValue classes name w = some (kind, image)) (plain : ∀ target, kind ≠ .object target)
    (given : (if rest = [] then child.toScalar.map fun s => (kind, s) else none) = some (m, s)) :
    ∃ s', Arrived register classes connector (name :: rest) w m s s' := by
  split at given
  case isFalse => cases given
  case isTrue last =>
      subst last
      obtain ⟨s₀, scalar, same⟩ := Option.map_eq_some_iff.mp given
      cases same
      cases recovered with
      | @scalar _ _ _ s' content =>
          cases scalar
          refine ⟨s', content, ?_, ⟨[], w, name, _, rfl, is, rfl⟩, plain⟩
          rw [imageAt, is, Option.bind_some]
          cases kind with
          | object target => exact absurd rfl (plain target)
          | _ => rfl
      | _ => cases scalar

/-- A parameter of a recoverable value is found in what is read. -/
theorem arrived (builds : Builds register classes table) (registered : Registered register table)
    {connector : Connector} {locator : Job → Str} {later : Table Ty} (grows : Preserves table later) {path : List Str}
    {v w : Value Ty Job} (recoverable : ∃ before after, Recoverable register locator before v after)
    (recovered : Recovered register connector v w) (produced : Produced register later w) {m : Member C} {s : Scalar}
    (given : parameterAt register classes table path v = some (m, s)) :
    ∃ s', Arrived register classes connector path w m s s' := by
  induction path generalizing v w with
  | nil => cases v <;> cases given
  | cons name rest ih =>
      cases v with
      | scalar flags s' => cases given
      | array flags ctype elements => cases given
      | map flags type task job children =>
          obtain ⟨before, after, recoverable⟩ := recoverable
          obtain ⟨u, there, onward⟩ := Option.bind_eq_some_iff.mp given
          obtain ⟨found, sets, below⟩ := Option.bind_eq_some_iff.mp onward
          obtain ⟨child, stored, leads⟩ := Option.bind_eq_some_iff.mp below
          obtain ⟨c, made, _⟩ := Option.bind_eq_some_iff.mp sets
          cases recovered with
          | @map _ flags' _ _ _ task' _ job' _ children' image typed kept alike each =>
              cases produced with
              | @map _ t _ _ _ known structured tasked ordered free marked produced =>
                  change register.types.name t = _ at typed
                  rw [← typed] at there
                  cases builds.read_type registered grows known there made
                  have stored' := kept name child stored
                  have is : memberValue classes name (.map flags' (.base u) task' job' children' : Value Ty Job) =
                      some (found.2, image name) := by
                    rw [memberValue, sets, stored']
                    rfl
                  have declared : name ∈ register.types.declaredNames type := by
                    cases recoverable with
                    | map _ _ _ _ declared _ => exact declared name child stored
                  have inner := each name child stored declared
                  obtain ⟨owner, kind⟩ := found
                  cases kind with
                  | object target =>
                      have inside : Produced register later (image name) := produced _ (mem_of_lookup stored')
                      obtain ⟨s', arrives⟩ := ih (recoverable_child name recoverable stored) inner inside leads
                      refine ⟨s', arrives.same, ?_, ?_, arrives.plain⟩
                      · rw [imageAt, is]
                        exact arrives.image
                      · obtain ⟨way, target', name', child', reached, member, scalar⟩ := arrives.place
                        refine ⟨.key name :: way, target', name', child', ?_, member, scalar⟩
                        rw [descend, memberValue_map is]
                        exact reached
                  | _ => exact arrived_leaf inner is (by simp) leads

/-- A member that is assigned holds the conversion of what is assigned. -/
theorem Arrived.converted {connector : Connector} {path : List Str} {w : Value Ty Job} {m : Member C} {s s' : Scalar}
    (arrives : Arrived register classes connector path w m s s') (keyed : Keyed w)
    {o : Native C} (made : createObjects classes register.types register.conversions w = .ok (some o)) :
    ∃ n, m.convert register.conversions s' = some n ∧ o.get classes path = some n := by
  obtain ⟨way, target, name, child, reached, member, scalar⟩ := arrives.place
  have assignable := (created_iff keyed).mp ⟨_, made⟩ way target reached name _ member
  have direct : ∃ s₀ n, child.toScalar = some s₀ ∧ scalarMember register.conversions s₀ m = .ok n := by
    cases m with
    | object target => exact absurd rfl (arrives.plain target)
    | _ => exact assignable
  obtain ⟨s₀, n, same, converted⟩ := direct
  cases scalar.symm.trans same
  refine ⟨n, (scalarMember_eq_ok.mp converted).2, ?_⟩
  rw [objects_mirror keyed made, arrives.image, converted]
  rfl

/-- What the client gives for a member, at any depth, is what the member of the running object holds: the content that
was given, with a path resolved, converted to the type of the member. -/
theorem parameters_arrive (builds : Builds register classes table) (registered : Registered register table)
    {connector : Connector} {locator : Job → Str} {v : Value Ty Job} {later : Table Ty} {text : Str} {o : Native C}
    (plain : PlainTexts register connector v) (recoverable : Recoverable register locator table v later)
    (written : outputJson register numbers connector locator v = .ok text)
    (started : startTask register numbers classes table text = .ok o) {path : List Str} {m : Member C} {s : Scalar}
    (given : parameterAt register classes table path v = some (m, s)) :
    ∃ s' n, SameContent register connector s s' ∧ m.convert register.conversions s' = some n ∧
      o.get classes path = some n := by
  have keeps : KeepsParameters register numbers connector locator table v :=
    keepsParameters_of_recoverable plain recoverable
  obtain ⟨_, written', j, parsed, w, grown, created, recovered⟩ := keeps
  cases written.symm.trans written'
  have built := create_built register j registered
  rw [created] at built
  obtain ⟨_, produced⟩ := built.produced w rfl
  obtain ⟨_, read, started⟩ := startTask_eq_ok.mp started
  cases read.unique ⟨j, parsed, congrArg Prod.fst created⟩
  obtain ⟨_, made⟩ := startValue_eq_ok.mp started
  obtain ⟨s', arrives⟩ := arrived builds registered built.grows ⟨_, _, recoverable⟩ recovered produced given
  obtain ⟨n, converted, holds⟩ := arrives.converted produced.keyed made
  exact ⟨s', n, arrives.same, converted, holds⟩

/-- The path `out` and the `x` inside. -/
theorem parameters_arrive_nested : ∃ text o,
    outputJson objectRegister bitsFormat ⟨[]⟩ (fun _ => str "job") nestedValue = .ok text ∧
      startTask objectRegister bitsFormat sampleClasses sampleTable text = .ok o ∧
        (∃ s' n, SameContent objectRegister ⟨[]⟩ (.integer 4) s' ∧
          (Member.long : Member SampleClass).convert objectRegister.conversions s' = some n ∧
            o.get sampleClasses [str "a", str "x"] = some n) ∧
          ∃ s' n, SameContent objectRegister ⟨[]⟩ (.path (str "/tmp")) s' ∧
            (Member.path : Member SampleClass).convert objectRegister.conversions s' = some n ∧
              o.get sampleClasses [str "out"] = some n := by
  obtain ⟨text, written, j, parsed, created⟩ := nested_written
  have started : startTask objectRegister bitsFormat sampleClasses sampleTable text = .ok _ :=
    startTask_eq_ok.mpr ⟨nestedValue, ⟨j, parsed, congrArg Prod.fst created⟩, rfl⟩
  exact ⟨text, _, written, started,
    parameters_arrive object_builds object_registered nested_plain nested_recoverable written started rfl,
    parameters_arrive object_builds object_registered nested_plain nested_recoverable written started rfl⟩

end

end Experimaestro.Configuration
