/-
Module: Experimaestro.Configuration.Values
Layer: Configuration
Purpose: The data model of configurations: scalars, types with their arguments, and the tree of values of
  `xpm.cpp`. Types and tasks are shared objects that outlive the values, so that a value refers to a type
  by an identity `Ty` that `Types` resolves; the job of a map is a reference `Job`. Copying a value
  copies the tree with its flags, which is the identity here. Texts are sequences of bytes.
Imports: Mathlib.Tactic.Common
Trusted boundary: human-reviewed model of src/src/xpm.cpp, scalar.cpp, type.cpp
Main exports: Scalar, Flags, TypeRef, Value, Argument, Types, Value.type, Value.canIgnore, Value.equals,
  Value.set
Open obligations: none
-/
import Mathlib.Tactic.Common

namespace Experimaestro.Configuration

/-- The bytes of a `std::string`. -/
abbrev Str := List UInt8

instance lawfulStr : LawfulBEq Str := inferInstance

/-- A text of the source, which only uses ASCII characters. -/
def str (text : String) : Str :=
  text.toList.map fun c => UInt8.ofNat c.toNat

/-- The comparison of `std::map<std::string, …>`: bytewise, lexicographic. -/
def keyLess : Str → Str → Bool
  | _, [] => false
  | [], _ :: _ => true
  | a :: as, b :: bs => a < b || (a == b && keyLess as bs)

/-- The exceptions of the modelled code, with their messages; `jsonError` stands for those of the JSON
    library. -/
inductive Error where
  | sealedError
  | argumentError (message : Str)
  | parameterError (message : Str) (path : List Str)
  | runtimeError (message : Str)
  | notImplementedError (method : Str)
  | jsonError
  | exception (message : Str)
deriving DecidableEq, Repr

/-- `parameter_error::addPath`; other exceptions are not caught where it is called. -/
def Error.addPath (component : Str) : Error → Error
  | .parameterError message path => .parameterError message (path ++ [component])
  | other => other

/-! ### Scalars -/

/-- `ScalarType`. -/
inductive ScalarType where
  | unset
  | none
  | integer
  | real
  | string
  | path
  | boolean
deriving DecidableEq, Repr

/-- The underlying `int8_t`. -/
def ScalarType.code : ScalarType → UInt8
  | .unset => 0
  | .none => 1
  | .integer => 2
  | .real => 3
  | .string => 4
  | .path => 5
  | .boolean => 6

/-- `Scalar`; a `double` is given by its bits. -/
inductive Scalar where
  | unset
  | none
  | integer (value : Int64)
  | real (bits : UInt64)
  | string (text : Str)
  | path (text : Str)
  | boolean (value : Bool)
deriving DecidableEq, Repr

namespace Scalar

/-- `Scalar::scalarType`. -/
def scalarType : Scalar → ScalarType
  | .unset => .unset
  | .none => .none
  | .integer _ => .integer
  | .real _ => .real
  | .string _ => .string
  | .path _ => .path
  | .boolean _ => .boolean

/-- `Scalar::null`. -/
def null (s : Scalar) : Bool := s.scalarType == .none

/-- `==` of two `double`: NaN differs from everything, the two zeros are equal. -/
def realEquals (a b : UInt64) : Bool :=
  let magnitude (bits : UInt64) := bits &&& 0x7FFFFFFFFFFFFFFF
  magnitude a ≤ 0x7FF0000000000000 && magnitude b ≤ 0x7FF0000000000000 &&
    (a == b || (magnitude a == 0 && magnitude b == 0))

/-- `Scalar::equals`. -/
def equals : Scalar → Scalar → Except Error Bool
  | .path a, .path b => .ok (a == b)
  | .string a, .string b => .ok (a == b)
  | .integer a, .integer b => .ok (a == b)
  | .real a, .real b => .ok (realEquals a b)
  | .boolean a, .boolean b => .ok (a == b)
  | .none, .none => .ok true
  | .unset, .unset => .error (.runtimeError (str "equals: unset has no type"))
  | _, _ => .ok false

end Scalar

/-! ### Types and values -/

/-- A type: one of the type objects, or an `ArrayType` made from a component type. -/
inductive TypeRef (Ty : Type) where
  | base (type : Ty)
  | array (component : TypeRef Ty)
deriving DecidableEq, Repr

/-- `Value::Flag`. -/
structure Flags where
  isSealed : Bool := false
  isDefault : Bool := false
  validated : Bool := false
  generated : Bool := false
  ignore : Bool := false
deriving DecidableEq, Repr

/-- `ScalarValue`, `ArrayValue` and `MapValue`. The children of a map are in the order of `_map`; its task
    is given by the identifier. -/
inductive Value (Ty Job : Type) where
  | scalar (flags : Flags) (value : Scalar)
  | array (flags : Flags) (ctype : TypeRef Ty) (elements : List (Value Ty Job))
  | map (flags : Flags) (type : TypeRef Ty) (task : Option Str) (job : Option Job)
      (children : List (Str × Value Ty Job))

/-- `Argument`. The only generator of the source is `PathGenerator`, given by its name. -/
structure Argument (Ty Job : Type) where
  name : Str
  type : TypeRef Ty
  required : Bool := true
  ignored : Bool := false
  isConstant : Bool := false
  value : Option (Value Ty Job) := none
  generator : Option Str := none

namespace Argument

variable {Ty Job : Type}

/-- `Argument::defaultValue`. -/
def defaultValue (a : Argument Ty Job) : Option (Value Ty Job) :=
  if a.isConstant then none else a.value

/-- `Argument::constant`. -/
def constant (a : Argument Ty Job) : Option (Value Ty Job) :=
  if a.isConstant then a.value else none

end Argument

/-- The type objects. The arguments of a type are listed in the iteration order of its unordered table;
    chains of parents end, as `level` shows. -/
structure Types (Ty Job : Type) where
  name : Ty → Str
  parent : Ty → Option Ty
  arguments : Ty → List (Argument Ty Job)
  canIgnore : Ty → Bool
  any : Ty
  boolean : Ty
  integer : Ty
  real : Ty
  string : Ty
  path : Ty
  level : Ty → ℕ
  level_lt : ∀ t p, parent t = some p → level p < level t
  nodup : ∀ t, ((arguments t).map Argument.name).Nodup
  path_canIgnore : canIgnore path = true

section

variable {Ty Job : Type} (types : Types Ty Job)

namespace Types

/-- `Type::name`, with `Typename::array`. -/
def nameOf : TypeRef Ty → Str
  | .base t => types.name t
  | .array component => nameOf component ++ str "[]"

/-- `Type::parentType`; the parent of an array type is the array type of the parent. -/
def parentOf : TypeRef Ty → Option (TypeRef Ty)
  | .base t => (types.parent t).map .base
  | .array component => (parentOf component).map .array

/-- `Type::arguments`. -/
def argumentsOf : TypeRef Ty → List (Argument Ty Job)
  | .base t => types.arguments t
  | .array _ => []

/-- `Type::canIgnore`. -/
def canIgnoreOf : TypeRef Ty → Bool
  | .base t => types.canIgnore t
  | .array _ => false

def levelOf : TypeRef Ty → ℕ
  | .base t => types.level t
  | .array component => levelOf component

theorem levelOf_lt : ∀ {t p : TypeRef Ty}, types.parentOf t = some p → types.levelOf p < types.levelOf t
  | .base t, p, h => by
      obtain ⟨q, parent, rfl⟩ := Option.map_eq_some_iff.mp h
      exact types.level_lt t q parent
  | .array t, p, h => by
      obtain ⟨q, parent, rfl⟩ := Option.map_eq_some_iff.mp h
      change types.levelOf q < types.levelOf t
      exact levelOf_lt parent

/-- The loop `for (type = _type; type; type = type->parentType())`, at most `n` times. -/
def chainOf : ℕ → TypeRef Ty → List (TypeRef Ty)
  | 0, _ => []
  | n + 1, t =>
      t :: match types.parentOf t with
        | some p => chainOf n p
        | none => []

/-- A type and its ancestors. -/
def chain (t : TypeRef Ty) : List (TypeRef Ty) :=
  types.chainOf (types.levelOf t + 1) t

/-- All declarations of the hierarchy of a type, the nearest type first. -/
def declarations (t : TypeRef Ty) : List (Argument Ty Job) :=
  (types.chain t).flatMap types.argumentsOf

/-- `Type::accepts`. -/
def accepts (type other : TypeRef Ty) : Bool :=
  types.nameOf type == str "any" ||
    (types.chain other).any (fun current => types.nameOf current == types.nameOf type) ||
    (types.nameOf type == types.name types.real && types.nameOf other == types.name types.integer)

end Types

namespace Value

/-- `Value::_flags`. -/
def flags : Value Ty Job → Flags
  | .scalar flags _ => flags
  | .array flags _ _ => flags
  | .map flags _ _ _ _ => flags

/-- Replace the flags. -/
def withFlags (f : Flags → Flags) : Value Ty Job → Value Ty Job
  | .scalar flags s => .scalar (f flags) s
  | .array flags ctype elements => .array (f flags) ctype elements
  | .map flags type task job children => .map (f flags) type task job children

/-- `type()`, with `Scalar::type`. -/
def type : Value Ty Job → TypeRef Ty
  | .scalar _ s =>
      match s.scalarType with
      | .none | .unset => .base types.any
      | .real => .base types.real
      | .integer => .base types.integer
      | .boolean => .base types.boolean
      | .path => .base types.path
      | .string => .base types.string
  | .array _ ctype _ => .array ctype
  | .map _ type _ _ _ => type

/-- `MapValue::task`, as the identifier. -/
def task : Value Ty Job → Option Str
  | .map _ _ task _ _ => task
  | _ => none

/-- `Value::isMap`. -/
def isMap : Value Ty Job → Bool
  | .map _ _ _ _ _ => true
  | _ => false

/-- `Value::canIgnore`. -/
def canIgnore (v : Value Ty Job) : Bool :=
  v.flags.ignore || types.canIgnoreOf (v.type types) || v.flags.isDefault

mutual

/-- `equals`, which `MapValue` does not implement. -/
def equals : Value Ty Job → Value Ty Job → Except Error Bool
  | .scalar _ a, .scalar _ b => a.equals b
  | .scalar _ _, _ => .ok false
  | .array _ _ as, .array _ _ bs =>
      if as.length ≠ bs.length then .ok false else equalsElements as bs
  | .array _ _ _, _ => .ok false
  | .map _ _ _ _ _, _ => .error (.notImplementedError (str "equals"))

/-- The loop over the elements of two arrays of the same size. -/
def equalsElements : List (Value Ty Job) → List (Value Ty Job) → Except Error Bool
  | a :: as, b :: bs =>
      match equals a b with
      | .error e => .error e
      | .ok false => .ok false
      | .ok true => equalsElements as bs
  | _, _ => .ok true

end

end Value

/-! ### Maps -/

/-- `_map.find(key)`. -/
def lookup {α : Type} (key : Str) : List (Str × α) → Option α
  | [] => none
  | (k, v) :: rest => if k = key then some v else lookup key rest

/-- `_map[key] = value`. -/
def insert {α : Type} (key : Str) (value : α) : List (Str × α) → List (Str × α)
  | [] => [(key, value)]
  | (k, v) :: rest =>
      if k = key then (key, value) :: rest
      else if keyLess key k then (key, value) :: (k, v) :: rest
      else (k, v) :: insert key value rest

/-- Replace what is stored under a key, if anything is. -/
def adjust {α : Type} (key : Str) (f : α → α) : List (Str × α) → List (Str × α)
  | [] => []
  | (k, v) :: rest => if k = key then (k, f v) :: rest else (k, v) :: adjust key f rest

/-- What is not among the keys is not found. -/
theorem lookup_eq_none_of_not_mem {α : Type} {key : Str} {entries : List (Str × α)}
    (absent : key ∉ entries.map Prod.fst) : lookup key entries = none := by
  induction entries with
  | nil => rfl
  | cons entry rest ih =>
      rw [List.map_cons, List.mem_cons, not_or] at absent
      rw [lookup, if_neg (Ne.symm absent.1)]
      exact ih absent.2

theorem lookup_insert {α : Type} (key k : Str) (value : α) :
    ∀ entries, lookup key (insert k value entries) = if k = key then some value else lookup key entries
  | [] => rfl
  | (l, v) :: rest => by
      rw [insert]
      split
      · subst l
        rw [lookup, lookup]
        by_cases here : k = key
        · rw [if_pos here, if_pos here]
        · rw [if_neg here, if_neg here, if_neg here]
      · split
        · rw [lookup]
        · rename_i other _
          rw [lookup, lookup_insert key k value rest, lookup]
          by_cases there : l = key
          · rw [if_pos there, if_neg (there ▸ Ne.symm other), if_pos there]
          · rw [if_neg there, if_neg there]

/-- What is in the table is inserted again. -/
theorem lookup_insert_again {α : Type} {k : Str} {value : α} {entries : List (Str × α)}
    (found : lookup k entries = some value) (key : Str) : lookup key (insert k value entries) = lookup key entries := by
  rw [lookup_insert]
  split
  · rename_i here
    rw [← here, found]
  · rfl

theorem mem_insert {α : Type} {entry : Str × α} {key : Str} {value : α} :
    ∀ {entries}, entry ∈ insert key value entries → entry = (key, value) ∨ entry ∈ entries
  | [], member => Or.inl (List.mem_singleton.mp member)
  | (l, v) :: rest, member => by
      rw [insert] at member
      split at member
      · exact (List.mem_cons.mp member).imp id (List.mem_cons_of_mem _)
      · split at member
        · exact List.mem_cons.mp member
        · rcases List.mem_cons.mp member with here | there
          · exact Or.inr (here ▸ List.mem_cons_self)
          · exact (mem_insert there).imp id (List.mem_cons_of_mem _)

theorem mem_insert_self {α : Type} (key : Str) (value : α) :
    ∀ entries : List (Str × α), (key, value) ∈ insert key value entries
  | [] => List.mem_singleton.mpr rfl
  | (k, v) :: rest => by
      rw [insert]
      split
      · exact List.mem_cons_self
      · split
        · exact List.mem_cons_self
        · exact List.mem_cons_of_mem _ (mem_insert_self key value rest)

/-- `RESTRICTED_KEYS`. -/
def restrictedKeys : List Str :=
  [str "$type", str "$task", str "$value", str "$job"]

namespace Value

/-- Whether a value equals the declared default of an argument. -/
def equalsDefault (argument : Argument Ty Job) (value : Value Ty Job) : Except Error Bool :=
  match argument.defaultValue with
  | some d => d.equals value
  | none => .ok false

/-- The flags that `MapValue::set` gives to a value stored under an argument: it raises DEFAULT and
    IGNORE and lowers nothing. -/
def markFor (argument : Option (Argument Ty Job)) (value : Value Ty Job) :
    Except Error (Value Ty Job) :=
  match argument with
  | none => .ok value
  | some argument =>
      (equalsDefault argument value).map fun isDefault =>
        value.withFlags fun flags =>
          { flags with
            isDefault := flags.isDefault || isDefault
            ignore := flags.ignore || argument.ignored }

/-- The argument that `MapValue::set` looks up: only among those of the type itself. -/
def ownArgument (type : TypeRef Ty) (key : Str) : Option (Argument Ty Job) :=
  (types.argumentsOf type).find? fun a => a.name = key

/-- `MapValue::set`: the map afterwards, and the exception when one is thrown. When the comparison with
    the default throws, the value has already been stored. -/
def set (target : Value Ty Job) (key : Str) (value : Value Ty Job) : Value Ty Job × Option Error :=
  match target with
  | .map flags type task job children =>
      if flags.isSealed then (.map flags type task job children, some .sealedError)
      else if key ∈ restrictedKeys then
        (.map flags type task job children,
          some (.argumentError (str "Cannot access directly to " ++ key)))
      else
        match markFor (ownArgument types type key) value with
        | .ok marked => (.map flags type task job (insert key marked children), none)
        | .error e => (.map flags type task job (insert key value children), some e)
  | other => (other, some (.argumentError (str "Cannot cast to Map")))

end Value

end

end Experimaestro.Configuration
